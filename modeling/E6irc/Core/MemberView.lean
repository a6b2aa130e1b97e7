import E6irc.Core.MemberCell
import E6irc.Core.Membership

/-!
# The network seen from one session and one channel

`State.cell` is what the network holds of one session and one channel: the session's
side, the member table's side, and what is on the two links between their shards.
Most of what a shard does concerns one session and one channel, and leaves every other
cell as it was (`Only`).  What it does to the cell it concerns is a step of the cell:
`network_reach` carries every run of the network to the runs of its cells.

Where both are on one shard nothing is ever in flight between them, and the two sides
agree at all times (`Cell.Settled`).
-/

namespace E6irc.Membership

open Base Option AList Input

variable {Shard : Type}

/-! ## Cells -/

/-- What an input asks about a session and a channel. -/
def Input.up (conn : ConnId) (key : ChanKey) : Input Shard → Option Up
  | channelJoin c k _ era => if c = conn ∧ k = key then some (.join era) else none
  | channelPart c k owed => if c = conn ∧ k = key then some (.part owed) else none
  | channelQuit c _ keys => if c = conn ∧ key ∈ keys then some .quit else none
  | channelMemberVanished c k => if c = conn ∧ k = key then some .vanished else none
  | channelJoinResult .. | channelPartResult .. | channelKick .. | sessionChannelRemoved .. => none

/-- What an input tells a session about a channel. -/
def Input.down (conn : ConnId) (key : ChanKey) : Input Shard → Option Down
  | channelJoinResult c k result era =>
    if c = conn ∧ k = key then some (if result = .joined then .joined era else .unchanged era)
    else none
  | channelPartResult c k result =>
    if c = conn ∧ k = key ∧ result = .parted then some .parted else none
  | sessionChannelRemoved c k => if c = conn ∧ k = key then some .removed else none
  | channelJoin .. | channelPart .. | channelKick .. | channelQuit .. | channelMemberVanished .. =>
    none

namespace State

/-- The era of a member. -/
def era (s : State Shard) (conn : ConnId) (key : ChanKey) : Option ℕ :=
  (s.channels key).bind fun chan => (chan.members.lookup conn).map Member.era

def ups (cfg : Config Shard) (s : State Shard) (conn : ConnId) (key : ChanKey) : List Up :=
  (s.links (cfg.home conn) (cfg.channelOwner key)).filterMap (up conn key)

def downs (cfg : Config Shard) (s : State Shard) (conn : ConnId) (key : ChanKey) : List Down :=
  (s.links (cfg.channelOwner key) (cfg.home conn)).filterMap (down conn key)

end State

/-- The cell of a session, if there is one, and of what the rest knows of it. -/
def Cell.of (session : Option Session) (key : ChanKey) (member : Option ℕ) (up : List Up)
    (down : List Down) : Cell where
  alive := session.isSome
  listed := session.any (·.channels.contains key)
  zeros := session.elim 0 Session.zeros
  pending := session.elim 0 (·.pendingJoins.count key)
  owed := session.elim 0 (·.partOnJoin.count key)
  member := member
  up := up
  down := down

def State.cell (cfg : Config Shard) (s : State Shard) (conn : ConnId) (key : ChanKey) : Cell :=
  .of (s.sessions conn) key (s.era conn key) (s.ups cfg conn key) (s.downs cfg conn key)

/-! ## Links -/

/-- The keys of a QUIT belong to the shard it is for. -/
def Input.Owned (cfg : Config Shard) : Input Shard → Prop
  | channelQuit _ shard keys => ∀ key ∈ keys, cfg.channelOwner key = shard
  | _ => True

section Links

variable {cfg : Config Shard} {conn : ConnId} {key : ChanKey} {input : Input Shard}

theorem Input.link_of_up {asked : Up} (owned : input.Owned cfg) (asks : input.up conn key = some asked) :
    cfg.home conn = input.src cfg ∧ cfg.channelOwner key = input.dst cfg := by
  cases input with
  | channelQuit c shard keys =>
    obtain ⟨⟨rfl, among⟩, -⟩ := ite_none_right_eq_some.mp asks
    exact ⟨rfl, owned key among⟩
  | channelJoin | channelPart | channelMemberVanished =>
    obtain ⟨⟨rfl, rfl⟩, -⟩ := ite_none_right_eq_some.mp asks
    exact ⟨rfl, rfl⟩
  | _ => cases asks

theorem Input.link_of_down {told : Down} (tells : input.down conn key = some told) :
    cfg.channelOwner key = input.src cfg ∧ cfg.home conn = input.dst cfg := by
  cases input with
  | channelJoinResult | channelPartResult | sessionChannelRemoved =>
    obtain ⟨named, -⟩ := ite_none_right_eq_some.mp tells
    obtain ⟨rfl, rest⟩ := named
    first
      | obtain rfl := rest
        exact ⟨rfl, rfl⟩
      | obtain ⟨rfl, -⟩ := rest
        exact ⟨rfl, rfl⟩
  | _ => cases tells

end Links

/-- The session and the channel an input is about, if it is about one of each. -/
def Input.subject : Input Shard → Option (ConnId × ChanKey)
  | channelJoin c k .. | channelJoinResult c k .. | channelPart c k .. | channelPartResult c k ..
  | sessionChannelRemoved c k | channelMemberVanished c k => some (c, k)
  | channelKick .. | channelQuit .. => none

variable {k key : ChanKey} {input : Input Shard} {c : ConnId}

theorem Input.silent_elsewhere {conn : ConnId}
    (subject : input.subject = some (c, k)) (other : ¬ (conn = c ∧ key = k)) :
    input.up conn key = none ∧ input.down conn key = none := by
  have apart : ¬ (c = conn ∧ k = key) := fun ⟨same, same'⟩ => other ⟨same.symm, same'.symm⟩
  cases input with
  | channelKick | channelQuit => cases subject
  | channelJoin | channelPart | channelMemberVanished =>
    cases subject
    exact ⟨if_neg apart, rfl⟩
  | channelJoinResult | sessionChannelRemoved =>
    cases subject
    exact ⟨rfl, if_neg apart⟩
  | channelPartResult =>
    cases subject
    exact ⟨rfl, if_neg fun same => apart ⟨same.1, same.2.1⟩⟩

variable {cfg : Config Shard}

theorem Input.owned_of_subject (subject : input.subject = some (c, k)) : input.Owned cfg := by
  cases input with
  | channelQuit => cases subject
  | _ => trivial

/-- An input between two shards is about a session and a channel on two shards. -/
theorem Input.remote_of_subject
    (subject : input.subject = some (c, k)) (apart : input.src cfg ≠ input.dst cfg) :
    cfg.home c ≠ cfg.channelOwner k := by
  cases input with
  | channelKick | channelQuit => cases subject
  | channelJoin | channelPart | channelMemberVanished =>
    cases subject
    exact apart
  | channelJoinResult | channelPartResult | sessionChannelRemoved =>
    cases subject
    exact apart.symm

/-- The two sessions have the same part in a cell with `key`. -/
structure Session.SameAt (key : ChanKey) (before after : Session) : Prop where
  listed : after.channels.contains key = before.channels.contains key
  zeros : after.zeros = before.zeros
  pending : after.pendingJoins.count key = before.pendingJoins.count key
  owed : after.partOnJoin.count key = before.partOnJoin.count key

theorem Session.SameAt.cell {before after : Session} (same : before.SameAt key after)
    (member : Option ℕ) (up : List Up) (down : List Down) :
    Cell.of (some after) key member up down = Cell.of (some before) key member up down := by
  simp only [Cell.of, isSome_some, any_some, elim_some, same.listed, same.zeros,
    same.pending, same.owed]

namespace State

variable {cfg : Config Shard} {s s' t : State Shard} {conn c : ConnId} {key k : ChanKey}

/-! ## Changing one cell -/

/-- Inputs travel between the shards they are for, which differ. -/
def Routed (cfg : Config Shard) (links : Links Shard (Input Shard)) : Prop :=
  ∀ a b, ∀ input ∈ links a b, input.src cfg = a ∧ input.dst cfg = b ∧ a ≠ b ∧ input.Owned cfg

/-- Every cell but that of `c` and `k` is as it was. -/
structure Only (cfg : Config Shard) (c : ConnId) (k : ChanKey) (s s' : State Shard) : Prop where
  cells : ∀ conn key, ¬ (conn = c ∧ key = k) → s'.cell cfg conn key = s.cell cfg conn key
  nextConn : s'.nextConn = s.nextConn
  routed : Routed cfg s.links → Routed cfg s'.links

theorem Only.refl (s : State Shard) : Only cfg c k s s := ⟨fun _ _ _ => rfl, rfl, id⟩

theorem Only.trans (first : Only cfg c k s t) (second : Only cfg c k t s') : Only cfg c k s s' where
  cells conn key other := (second.cells conn key other).trans (first.cells conn key other)
  nextConn := second.nextConn.trans first.nextConn
  routed := second.routed ∘ first.routed

theorem cell_updateSession (change : Session → Session) :
    (s.updateSession c change).cell cfg c key =
      .of ((s.sessions c).map change) key (s.era c key) (s.ups cfg c key) (s.downs cfg c key) := by
  unfold cell updateSession
  dsimp only
  rw [Function.update_self]
  rfl

theorem cell_updateSession_of_ne (change : Session → Session) (other : conn ≠ c) :
    (s.updateSession c change).cell cfg conn key = s.cell cfg conn key := by
  unfold cell updateSession
  dsimp only
  rw [Function.update_of_ne other]
  rfl

theorem only_updateSession {change : Session → Session}
    (same : ∀ session, s.sessions c = some session → ∀ key, key ≠ k →
      session.SameAt key (change session)) :
    Only cfg c k s (s.updateSession c change) := by
  refine ⟨fun conn key other => ?_, rfl, id⟩
  rcases eq_or_ne conn c with rfl | apart
  · rw [cell_updateSession]
    cases found : s.sessions conn with
    | none => rw [cell, found, map_none]
    | some session =>
      rw [cell, found, map_some]
      exact (same session found key fun isKey => other ⟨rfl, isKey⟩).cell _ _ _
  · exact cell_updateSession_of_ne change apart

/-! ## The member table -/

theorem era_setChannel (chan : Option Channel) :
    (s.setChannel k chan).era conn key =
      if key = k then chan.bind fun chan => (chan.members.lookup conn).map Member.era
      else s.era conn key := by
  unfold era setChannel
  dsimp only
  rcases eq_or_ne key k with rfl | apart
  · rw [Function.update_self, if_pos rfl]
  · rw [Function.update_of_ne apart, if_neg apart]

/-- The member tables differ at `c` and `k` only, and the rest is the same. -/
structure Tables (c : ConnId) (k : ChanKey) (s s' : State Shard) : Prop where
  sessions : s'.sessions = s.sessions
  links : s'.links = s.links
  nextConn : s'.nextConn = s.nextConn
  era : ∀ conn key, ¬ (conn = c ∧ key = k) → s'.era conn key = s.era conn key

theorem Tables.cell (tables : Tables c k s s') (conn : ConnId) (key : ChanKey) :
    s'.cell cfg conn key =
      .of (s.sessions conn) key (s'.era conn key) (s.ups cfg conn key) (s.downs cfg conn key) := by
  rw [State.cell, ups, downs, tables.sessions, tables.links]
  rfl

theorem Tables.only (tables : Tables c k s s') : Only cfg c k s s' := by
  refine ⟨fun conn key other => ?_, tables.nextConn, fun routed => tables.links ▸ routed⟩
  rw [tables.cell, tables.era conn key other]
  rfl

theorem isMember_iff {chan : Channel} (found : s.channels k = some chan) :
    chan.isMember c = (s.era c k).isSome := by
  rw [Channel.isMember, era, found, bind_some, isSome_map]

theorem tables_setChannel {chan : Channel}
    (same : ∀ conn, conn ≠ c → (chan.members.lookup conn).map Member.era = s.era conn k) :
    Tables c k s (s.setChannel k (some chan)) := by
  refine ⟨rfl, rfl, rfl, fun conn key other => ?_⟩
  rw [era_setChannel]
  split
  · rename_i isKey
    rw [bind_some, isKey]
    exact same conn fun isConn => other ⟨isConn, isKey⟩
  · rfl

theorem Tables.refl (s : State Shard) : Tables c k s s := ⟨rfl, rfl, rfl, fun _ _ _ => rfl⟩

theorem era_of_found {chan : Channel} (found : s.channels k = some chan) :
    s.era conn k = (chan.members.lookup conn).map Member.era := by
  rw [era, found, bind_some]

theorem era_of_missing (missing : s.channels k = none) : s.era conn k = none := by
  rw [era, missing, bind_none]

theorem lookup_of_not_hasMembers (chan : Channel) (empty : chan.hasMembers = false) :
    chan.members.lookup conn = none := by
  have noEntries : chan.members = ∅ := by
    refine AList.ext ?_
    simpa [Channel.hasMembers] using empty
  rw [noEntries, lookup_empty]

theorem tables_removeMember : Tables c k s (s.removeMember k c) := by
  unfold removeMember
  cases found : s.channels k with
  | none => exact .refl s
  | some chan =>
    dsimp only
    split
    · refine ⟨rfl, rfl, rfl, fun conn key other => ?_⟩
      rw [era_setChannel]
      split
      · rename_i isKey
        subst isKey
        have kept : (chan.members.erase c).lookup conn = chan.members.lookup conn :=
          lookup_erase_ne fun isConn => other ⟨isConn, rfl⟩
        rw [era_of_found found, ← kept]
        split
        · rfl
        rename_i empty
        have none_left : (chan.members.erase c).lookup conn = none :=
          lookup_of_not_hasMembers { chan with members := chan.members.erase c }
            (Bool.eq_false_iff.mpr empty)
        rw [none_left]
        rfl
      · rfl
    · exact .refl s

theorem era_removeMember : (s.removeMember k c).era c k = none := by
  unfold removeMember
  cases found : s.channels k with
  | none => exact era_of_missing found
  | some chan =>
    dsimp only
    split
    · rw [era_setChannel, if_pos rfl]
      split
      · rw [bind_some, lookup_erase, map_none]
      · rfl
    · rename_i absent
      rw [isMember_iff found, Bool.not_eq_true, isSome_eq_false_iff] at absent
      exact isNone_iff_eq_none.mp absent

variable (s c k) in
/-- A PART takes the member out, and says whether there was one. -/
theorem partOnOwner_spec :
    Tables c k s (s.partOnOwner c k).2 ∧ (s.partOnOwner c k).2.era c k = none ∧
      ((s.partOnOwner c k).1 = .parted ↔ (s.era c k).isSome = true) := by
  unfold partOnOwner
  cases found : s.channels k with
  | none =>
    have missing : s.era c k = none := era_of_missing found
    exact ⟨.refl s, missing, by simp [missing]⟩
  | some chan =>
    dsimp only
    rw [isMember_iff found]
    cases member : s.era c k with
    | some m => exact ⟨tables_removeMember, era_removeMember, by simp⟩
    | none =>
      simp only [isSome_none, Bool.false_eq_true, if_false]
      split
      · exact ⟨.refl s, member, by simp⟩
      · exact ⟨.refl s, member, by simp⟩

variable (cfg s c k) in
/-- A JOIN finds a member, makes one, or is refused. -/
theorem joinOnOwner_spec (joinKey : Option Bytes) (era : ℕ) :
    Tables c k s (s.joinOnOwner cfg c k joinKey era).2 ∧
      ((∃ before, s.era c k = some before ∧ (s.joinOnOwner cfg c k joinKey era).1 = .alreadyMember ∧
          (s.joinOnOwner cfg c k joinKey era).2.era c k = some era) ∨
        s.era c k = none ∧ (s.joinOnOwner cfg c k joinKey era).1 = .joined ∧
          (s.joinOnOwner cfg c k joinKey era).2.era c k = some era ∨
        ∃ failure, s.era c k = none ∧ (s.joinOnOwner cfg c k joinKey era).1 = .rejected failure ∧
          (s.joinOnOwner cfg c k joinKey era).2.era c k = none) := by
  have known (conn : ConnId) :
      s.era conn k = (((s.channels k).getD .new).members.lookup conn).map Member.era := by
    cases found : s.channels k with
    | none =>
      rw [era_of_missing found, getD_none, Channel.new, lookup_empty]
      rfl
    | some chan => rw [era_of_found found, getD_some]
  unfold joinOnOwner
  dsimp only
  generalize (s.channels k).getD .new = chan at known ⊢
  cases held : chan.members.lookup c with
  | some member =>
    dsimp only
    refine ⟨tables_setChannel fun conn other => ?_, .inl ⟨member.era, ?_, rfl, ?_⟩⟩
    · rw [lookup_insert_ne other, known]
    · rw [known, held]
      rfl
    · rw [era_setChannel, if_pos rfl, bind_some, lookup_insert]
      rfl
  | none =>
    have none_yet : s.era c k = none := by
      rw [known, held]
      rfl
    dsimp only
    split
    · rename_i failure _
      refine ⟨tables_setChannel fun conn _ => (known conn).symm,
        .inr (.inr ⟨failure, none_yet, rfl, ?_⟩)⟩
      rw [era_setChannel, if_pos rfl, bind_some, held]
      rfl
    · refine ⟨tables_setChannel fun conn other => ?_, .inr (.inl ⟨none_yet, rfl, ?_⟩)⟩
      · rw [Channel.addMember, lookup_insert_ne other, known]
      · rw [era_setChannel, if_pos rfl, bind_some, Channel.addMember, lookup_insert]
        rfl

/-- A QUIT takes the session out of the channels it names. -/
theorem quitChannelMember_spec (keys : List ChanKey) :
    (s.quitChannelMember c keys).sessions = s.sessions ∧
      (s.quitChannelMember c keys).links = s.links ∧
      (s.quitChannelMember c keys).nextConn = s.nextConn ∧
      ∀ conn key, (s.quitChannelMember c keys).era conn key =
        if conn = c ∧ key ∈ keys then none else s.era conn key := by
  unfold quitChannelMember
  induction keys generalizing s with
  | nil => exact ⟨rfl, rfl, rfl, fun _ _ => by simp⟩
  | cons k keys ih =>
    have first : Tables c k s (s.removeMember k c) := tables_removeMember
    obtain ⟨sessions, links, next, eras⟩ := @ih (s.removeMember k c)
    refine ⟨sessions.trans first.sessions, links.trans first.links, next.trans first.nextConn,
      fun conn key => ?_⟩
    rw [List.foldl_cons, eras]
    by_cases here : conn = c ∧ key = k
    · obtain ⟨rfl, rfl⟩ := here
      rw [era_removeMember]
      simp
    · rw [first.era conn key here]
      by_cases later : conn = c ∧ key ∈ keys
      · simp [later]
      have neither : ¬ (conn = c ∧ key ∈ k :: keys) := by
        rintro ⟨rfl, among⟩
        rcases List.mem_cons.mp among with rfl | among
        · exact here ⟨rfl, rfl⟩
        · exact later ⟨rfl, among⟩
      rw [if_neg later, if_neg neither]

theorem only_removeSessionChannel : Only cfg c k s (s.removeSessionChannel c k) :=
  only_updateSession fun session _ _ other =>
    ⟨by simp [Session.removeChannel, List.mem_erase_of_ne other], rfl, rfl, rfl⟩

theorem cell_removeSessionChannel :
    (s.removeSessionChannel c k).cell cfg c k = { s.cell cfg c k with listed := false } := by
  rw [removeSessionChannel, cell_updateSession]
  cases found : s.sessions c with
  | none => simp [cell, found, Cell.of]
  | some session =>
    have gone : k ∉ session.channels.erase k := session.nodup.not_mem_erase
    simp [cell, found, Cell.of, Session.removeChannel, gone]

theorem only_emitPartResponse (result : ChannelPartResult) :
    Only cfg c k s (s.emitPartResponse c k result) := by
  cases result with
  | parted => exact only_removeSessionChannel
  | _ => exact .refl s

/-! ## What is on the links -/

section Links

variable [DecidableEq Shard] {input : Input Shard}

theorem ups_route (owned : input.Owned cfg) :
    (s.route cfg input).ups cfg conn key = s.ups cfg conn key ++ (input.up conn key).toList :=
  Links.filterMap_send fun _ => link_of_up owned

theorem downs_route :
    (s.route cfg input).downs cfg conn key = s.downs cfg conn key ++ (input.down conn key).toList :=
  Links.filterMap_send fun _ => link_of_down

theorem Routed.route (routed : Routed cfg s.links) (apart : input.src cfg ≠ input.dst cfg)
    (owned : input.Owned cfg) : Routed cfg (s.route cfg input).links := by
  intro a b other queued
  rcases Links.mem_send.mp queued with before | ⟨⟨rfl, rfl⟩, rfl⟩
  · exact routed a b other before
  · exact ⟨rfl, rfl, apart, owned⟩

section Receive

variable {src dst : Shard} {rest : Links Shard (Input Shard)}

theorem Routed.receive (routed : Routed cfg s.links)
    (received : s.links.receive src dst = some (input, rest)) : Routed cfg rest :=
  fun a b other left => routed a b other (Links.mem_of_receive received left)

/-- The input received was the oldest that its cell waited for. -/
theorem ups_receive (routed : Routed cfg s.links)
    (received : s.links.receive src dst = some (input, rest)) :
    s.ups cfg conn key =
      (input.up conn key).toList ++ { s with links := rest }.ups cfg conn key := by
  obtain ⟨rfl, rfl, -, owned⟩ := routed src dst input (Links.head_mem received)
  exact Links.filterMap_receive received fun _ => link_of_up owned

theorem downs_receive (routed : Routed cfg s.links)
    (received : s.links.receive src dst = some (input, rest)) :
    s.downs cfg conn key =
      (input.down conn key).toList ++ { s with links := rest }.downs cfg conn key := by
  obtain ⟨rfl, rfl, -⟩ := routed src dst input (Links.head_mem received)
  exact Links.filterMap_receive received fun _ => link_of_down

end Receive

theorem cell_route (owned : input.Owned cfg) :
    (s.route cfg input).cell cfg conn key =
      .of (s.sessions conn) key (s.era conn key) (s.ups cfg conn key ++ (input.up conn key).toList)
        (s.downs cfg conn key ++ (input.down conn key).toList) := by
  rw [cell, ups_route owned, downs_route]
  rfl

theorem cell_route_subject (subject : input.subject = some (c, k)) :
    (s.route cfg input).cell cfg c k =
      { s.cell cfg c k with
        up := (s.cell cfg c k).up ++ (input.up c k).toList
        down := (s.cell cfg c k).down ++ (input.down c k).toList } :=
  cell_route (owned_of_subject subject)

theorem only_route (subject : input.subject = some (c, k)) (apart : input.src cfg ≠ input.dst cfg) :
    Only cfg c k s (s.route cfg input) := by
  refine ⟨fun conn key other => ?_, rfl, fun routed =>
    routed.route apart (owned_of_subject subject)⟩
  obtain ⟨up, down⟩ := silent_elsewhere subject other
  rw [cell_route (owned_of_subject subject), up, down, toList_none, toList_none,
    List.append_nil, List.append_nil]
  rfl

end Links

end State

/-! ## A session and a channel on one shard -/

/-- Nothing is in flight, and the two sides agree. -/
structure Cell.Agrees (x : Cell) : Prop where
  agree : x.listed = x.member.isSome
  pending : x.pending = 0
  owed : x.owed = 0

/-- The two sides agree, and a member has joined since the last `JOIN 0`. -/
structure Cell.Settled (x : Cell) : Prop extends x.Agrees where
  current : ∀ m ∈ x.member, x.zeros ≤ m

namespace State

variable [DecidableEq Shard] {cfg : Config Shard} {s s' t : State Shard}
variable {conn c : ConnId} {key k : ChanKey}

/-! ## Commands about one session and one channel -/

theorem only_cmdPart (owed : Option ℕ) : Only cfg c k s (s.cmdPart cfg c k owed) := by
  unfold cmdPart
  split
  · exact (partOnOwner_spec s c k).1.only.trans (only_emitPartResponse _)
  · rename_i remote
    exact only_route rfl (Ne.symm remote)

theorem cell_cmdPart (remote : cfg.home c ≠ cfg.channelOwner k) (owed : Option ℕ) :
    (s.cmdPart cfg c k owed).cell cfg c k =
      { s.cell cfg c k with up := (s.cell cfg c k).up ++ [.part owed] } := by
  rw [cmdPart, if_neg remote.symm, cell_route_subject rfl]
  simp [up, down]

theorem settled_cmdPart (here : cfg.home c = cfg.channelOwner k) (owed : Option ℕ)
    (agrees : (s.cell cfg c k).Agrees) : ((s.cmdPart cfg c k owed).cell cfg c k).Settled := by
  obtain ⟨tables, gone, parts⟩ := partOnOwner_spec s c k
  have after : (s.partOnOwner c k).2.cell cfg c k = { s.cell cfg c k with member := none } := by
    rw [tables.cell, gone]
    rfl
  rw [cmdPart, if_pos here.symm]
  dsimp only
  by_cases parted : (s.partOnOwner c k).1 = .parted
  · rw [parted, emitPartResponse, cell_removeSessionChannel, after]
    exact ⟨⟨rfl, agrees.pending, agrees.owed⟩, nofun⟩
  have same : (s.partOnOwner c k).2.emitPartResponse c k (s.partOnOwner c k).1 =
      (s.partOnOwner c k).2 := by
    cases result : (s.partOnOwner c k).1 with
    | parted => exact absurd result parted
    | _ => rfl
  have absent : (s.cell cfg c k).member.isSome = false :=
    Bool.eq_false_iff.mpr fun member => parted (parts.mpr member)
  rw [same, after]
  exact ⟨⟨agrees.agree.trans absent, agrees.pending, agrees.owed⟩, nofun⟩

theorem only_emitJoinResponse (result : ChannelJoinResult) :
    Only cfg c k s (s.emitJoinResponse cfg c k result) := by
  cases result with
  | joined =>
    unfold emitJoinResponse
    dsimp only
    split
    · split
      · exact tables_removeMember.only
      · rename_i remote
        exact only_route rfl (Ne.symm remote)
    · exact only_updateSession fun session _ _ other =>
        ⟨by simp [Session.insertChannel, other], rfl, rfl, rfl⟩
  | _ => exact .refl s

/-- A JOIN where both sides are on one shard. -/
theorem settled_join (settled : (s.cell cfg c k).Settled) {session : Session}
    (found : s.sessions c = some session) (joinKey : Option Bytes) :
    (((s.joinOnOwner cfg c k joinKey session.zeros).2.emitJoinResponse cfg c k
      (s.joinOnOwner cfg c k joinKey session.zeros).1).cell cfg c k).Settled := by
  obtain ⟨tables, member⟩ := joinOnOwner_spec cfg s c k joinKey session.zeros
  have zeros : (s.cell cfg c k).zeros = session.zeros := by
    rw [cell, found]
    rfl
  have still : (s.joinOnOwner cfg c k joinKey session.zeros).2.sessions c = some session := by
    rw [tables.sessions, found]
  rcases member with ⟨before, was, result, now⟩ | ⟨was, result, now⟩ | ⟨failure, was, result, now⟩
  · rw [result, emitJoinResponse, tables.cell, now]
    have listed : (s.cell cfg c k).listed = true := by
      rw [settled.agree, cell, Cell.of, was]
      rfl
    exact ⟨⟨listed, settled.pending, settled.owed⟩, fun m held => some.inj held ▸ zeros.le⟩
  · rw [result, emitJoinResponse, still]
    dsimp only
    rw [cell_updateSession, still, now]
    refine ⟨⟨?_, ?_, ?_⟩, fun m held => (some.inj held).le⟩
    · simp [Cell.of, Session.insertChannel]
    · have pending := settled.pending
      rw [cell, found] at pending
      exact pending
    · have owed := settled.owed
      rw [cell, found] at owed
      exact owed
  · rw [result, emitJoinResponse, tables.cell, now]
    have listed : (s.cell cfg c k).listed = false := by
      rw [settled.agree, cell, Cell.of, was]
      rfl
    exact ⟨⟨listed, settled.pending, settled.owed⟩, nofun⟩

variable (cfg s c k) in
/-- A KICK does nothing, or takes a member out and tells its session. -/
theorem kickOnOwner_cases (victim : ConnId) :
    s.kickOnOwner cfg c k victim = s ∨
      (s.era victim k).isSome ∧ s.kickOnOwner cfg c k victim =
        if cfg.channelOwner k = cfg.home victim then
          (s.removeMember k victim).removeSessionChannel victim k
        else (s.removeMember k victim).route cfg (.sessionChannelRemoved victim k) := by
  unfold kickOnOwner
  cases found : s.channels k with
  | none => exact .inl rfl
  | some chan =>
    dsimp only
    split
    · rename_i kicks
      rw [Bool.and_eq_true, isMember_iff found] at kicks
      exact .inr ⟨kicks.2, rfl⟩
    · exact .inl rfl

theorem only_kickOnOwner (victim : ConnId) : Only cfg victim k s (s.kickOnOwner cfg c k victim) := by
  rcases kickOnOwner_cases cfg s c k victim with same | ⟨-, kicks⟩
  · rw [same]
    exact .refl s
  rw [kicks]
  refine tables_removeMember.only.trans ?_
  split
  · exact only_removeSessionChannel
  · rename_i remote
    exact only_route rfl remote

end State

end E6irc.Membership
