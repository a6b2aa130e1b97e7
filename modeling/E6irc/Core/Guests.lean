import E6irc.Core.Conversation

/-!
# Guests and the messages kept under their nicks

A guest is a registered session without an account, known by its `~nick`.  The
nick is free the moment the guest lets go of it, and the next holder may be on
any shard.  `State.Accounted` says where every identity stands: it is held, or
its release is handled or on its way, on every shard.

`core_forgets_released` is the result: when a session lets go of its identity
only with no message of its own on the way to its shard, and takes one only
with no release of it on the way, no shard keeps a message of a party whose
release it has handled, and no guest finds another's messages.
`core_keeps_message_of_released` is the run that shows the first is needed.
-/

namespace E6irc.Sharded

open Base Option AList State Session Copies

variable {Shard : Type}

/-- What a guest's own shard holds under the guest's identity was sent by or to
the guest under that identity, not by or to an earlier holder of the nick. -/
def State.Private (cfg : Config Shard) (s : State Shard) : Prop :=
  ∀ conn session, s.sessions.lookup conn = some session → session.isGuest = true →
    ∀ key entry, (s.copies.history (cfg.home conn)).Holds key entry →
      ∀ message ∈ s.copies.sent, message.msgid = entry.msgid → ∀ party ∈ message.parties,
        party.identity = session.identity cfg.casemap → party = s.party cfg conn session

/-! ## Sessions and their names -/

/-- A session's names are ones the server accepts, and a registered one has a nick. -/
structure Session.Valid (cfg : Config Shard) (session : Session) : Prop where
  nick : ∀ nick ∈ session.nick, validNick nick cfg.nickLen = true
  account : ∀ account ∈ session.account, validAccount account = true
  complete : session.registered = true → session.nick.isSome = true

namespace Session

variable {cfg : Config Shard} {session : Session}

theorem Valid.isIdentity (valid : session.Valid cfg) :
    IsIdentity (session.identity cfg.casemap) := by
  unfold identity
  cases account : session.account with
  | some name => exact isIdentity_account (nameBytes_of_validAccount (valid.account name account))
  | none =>
    refine isIdentity_unauthenticated ?_
    cases nick : session.nick with
    | none => simp
    | some name => exact nameBytes_of_validNick (valid.nick name nick)

theorem identity_of_nick {nick : Bytes} (guest : session.account = none)
    (held : session.nick = some nick) :
    session.identity cfg.casemap = unauthenticatedIdentity cfg.casemap nick := by
  simp [identity, guest, held]

/-- Only a session without an account has a `~` identity. -/
theorem Valid.account_eq_none (valid : session.Valid cfg)
    (tilde : (session.identity cfg.casemap).head? = some (byte '~')) : session.account = none := by
  cases account : session.account with
  | none => rfl
  | some name =>
    simp only [identity, account] at tilde
    have folded := casefold_nameBytes cfg.casemap
      (nameBytes_of_validAccount (valid.account name account))
    exact absurd rfl (folded _ (List.mem_of_mem_head? tilde)).2.2

theorem isGuest_iff : session.isGuest = true ↔ session.registered = true ∧ session.account = none := by
  simp [isGuest]

end Session

namespace State

/-- Every session's names are valid, and no two sessions share a nick. -/
structure Named (cfg : Config Shard) (s : State Shard) : Prop where
  valid : ∀ conn session, s.sessions.lookup conn = some session → session.Valid cfg
  unique : ∀ conn session conn' session', s.sessions.lookup conn = some session →
    s.sessions.lookup conn' = some session' → ∀ nick ∈ session.nick, ∀ nick' ∈ session'.nick,
      cfg.casemap.casefold nick = cfg.casemap.casefold nick' → conn = conn'

variable {cfg : Config Shard} {s s' : State Shard} {conn : ConnId} {session next : Session}
  {nick : Bytes}

theorem not_held_of_claimNick (claimed : s.claimNick cfg conn nick = true) {other : ConnId}
    (apart : other ≠ conn) (held : s.sessions.lookup other = some session) :
    ∀ nick' ∈ session.nick, cfg.casemap.casefold nick ≠ cfg.casemap.casefold nick' := by
  have entry := mem_lookup_iff.mp held
  have free := List.all_eq_true.mp claimed _ entry
  simp only [Bool.or_eq_true, beq_iff_eq, bne_iff_ne, apart, false_or] at free
  intro nick' mem same
  exact free (by rw [mem_def.mp mem, same]; rfl)

/-- A session put in place of another, or of none, under a nick nobody else has. -/
theorem Named.insert (named : s.Named cfg)
    (sessions : s'.sessions = s.sessions.insert conn next) (valid : next.Valid cfg)
    (free : ∀ other ≠ conn, ∀ session, s.sessions.lookup other = some session →
      ∀ nick ∈ next.nick, ∀ nick' ∈ session.nick,
        cfg.casemap.casefold nick ≠ cfg.casemap.casefold nick') : s'.Named cfg := by
  have lookup (other : ConnId) : s'.sessions.lookup other =
      if other = conn then some next else s.sessions.lookup other := by
    rw [sessions]
    split
    · rename_i same
      subst same
      exact lookup_insert _
    · exact lookup_insert_ne ‹_›
  refine ⟨fun other held => ?_, fun a x b y => ?_⟩
  · rw [lookup]
    split
    · rintro ⟨⟩
      exact valid
    · exact named.valid other held
  · rw [lookup, lookup]
    split <;> split <;> rename_i atA atB
    · exact fun _ _ _ _ _ _ _ => atA.trans atB.symm
    · rintro ⟨⟩ held m mem m' mem' same
      exact absurd same (free b atB y held m mem m' mem')
    · rintro held ⟨⟩ m mem m' mem' same
      exact absurd same.symm (free a atA x held m' mem' m mem)
    · exact named.unique a x b y

theorem Named.insert_same_nick (named : s.Named cfg) (held : s.sessions.lookup conn = some session)
    (sessions : s'.sessions = s.sessions.insert conn next) (valid : next.Valid cfg)
    (same : next.nick = session.nick) : s'.Named cfg :=
  named.insert sessions valid fun other apart _ found m mem m' mem' folded =>
    apart (named.unique conn session other _ held found m (same ▸ mem) m' mem' folded).symm

variable [DecidableEq Shard]

theorem Named.step {event : Event Shard} (named : s.Named cfg)
    (step : s.step cfg event = some s') : s'.Named cfg := by
  cases event with
  | connect conn =>
    obtain ⟨-, rfl⟩ := guard_some_eq_some.mp step
    exact named.insert rfl ⟨by simp, by simp, by simp⟩ (by simp)
  | nick conn nick =>
    obtain ⟨session, held, step⟩ := bind_eq_some_iff.mp step
    obtain ⟨⟨valid, claimed⟩, rfl⟩ := guard_some_eq_some.mp step
    have before := named.valid conn session held
    refine named.insert rfl ⟨by simpa using valid, before.account, by simp⟩ ?_
    intro other apart session' found m mem
    cases mem
    exact not_held_of_claimNick claimed apart found
  | register conn =>
    obtain ⟨session, held, step⟩ := bind_eq_some_iff.mp step
    obtain ⟨complete, rfl⟩ := guard_some_eq_some.mp step
    have before := named.valid conn session held
    exact named.insert_same_nick held rfl ⟨before.nick, before.account, fun _ => complete⟩ rfl
  | login conn account =>
    obtain ⟨session, held, step⟩ := bind_eq_some_iff.mp step
    obtain ⟨valid, rfl⟩ := guard_some_eq_some.mp step
    have before := named.valid conn session held
    exact named.insert_same_nick held rfl ⟨before.nick, by simpa using valid, before.complete⟩ rfl
  | logout conn =>
    obtain ⟨session, held, step⟩ := bind_eq_some_iff.mp step
    cases step
    have before := named.valid conn session held
    exact named.insert_same_nick held rfl ⟨before.nick, by simp, before.complete⟩ rfl
  | close conn =>
    obtain ⟨session, held, step⟩ := bind_eq_some_iff.mp step
    cases step
    exact ⟨fun a x found => named.valid a x (of_lookup_erase found).2,
      fun a x b y found found' =>
        named.unique a x b y (of_lookup_erase found).2 (of_lookup_erase found').2⟩
  | message src dst entry =>
    obtain ⟨sender, -, step⟩ := bind_eq_some_iff.mp step
    obtain ⟨peer, -, step⟩ := bind_eq_some_iff.mp step
    obtain ⟨-, rfl⟩ := guard_some_eq_some.mp step
    exact ⟨named.valid, named.unique⟩
  | channelMessage shard key entry =>
    obtain ⟨-, rfl⟩ := guard_some_eq_some.mp step
    exact ⟨named.valid, named.unique⟩
  | deliver src dst =>
    obtain ⟨⟨input, links⟩, -, step⟩ := bind_eq_some_iff.mp step
    cases step
    exact ⟨named.valid, named.unique⟩

end State

/-! ## Where every identity stands -/

/-- Every shard has handled the party's release, or it is on its way there. -/
def Copies.Gone (cfg : Config Shard) (c : Copies Shard) (party : Party) : Prop :=
  ∀ shard, (shard, party) ∈ c.handled ∨
    .unauthenticatedIdentityReleased party ∈ c.links (cfg.home party.conn) shard

/-- No release of the identity is on its way to the shard. -/
def Copies.Freed (c : Copies Shard) (identity : Bytes) (shard : Shard) : Prop :=
  ∀ src, ∀ input ∈ c.links src shard, input.frees identity = false

namespace State

/-- The party is a guest as it is now. -/
def Current (cfg : Config Shard) (s : State Shard) (party : Party) : Prop :=
  ∃ session, s.sessions.lookup party.conn = some session ∧ session.isGuest = true ∧
    party = s.party cfg party.conn session

/-- A guest who took part in a message is still the same guest or gone, and no
guest holds an identity whose release is on its way to the guest's shard. -/
structure Accounted (cfg : Config Shard) (s : State Shard) : Prop where
  parties : ∀ message ∈ s.copies.sent, ∀ party ∈ message.parties,
    party.identity.head? = some (byte '~') → s.Current cfg party ∨ s.copies.Gone cfg party
  vacant : ∀ src conn party,
    .unauthenticatedIdentityReleased party ∈ s.copies.links src (cfg.home conn) →
      ∀ session, s.sessions.lookup conn = some session → session.isGuest = true →
        session.identity cfg.casemap ≠ party.identity

variable {cfg : Config Shard} {s s' : State Shard} {conn : ConnId} {session : Session}

/-- A guest's own shard holds, under the guest's identity, the guest's messages only. -/
theorem Accounted.toPrivate (accounted : s.Accounted cfg) (named : s.Named cfg)
    (forgotten : s.copies.Forgotten) : s.Private cfg := by
  intro conn session held guest key entry stored message sent same party part identity
  obtain ⟨registered, unauthenticated⟩ := isGuest_iff.mp guest
  obtain ⟨nick, nicked⟩ := isSome_iff_exists.mp
    ((named.valid conn session held).complete registered)
  have tilde : party.identity.head? = some (byte '~') := by
    rw [identity, identity_of_nick unauthenticated nicked]
    rfl
  rcases accounted.parties message sent party part tilde with ⟨holder, found, present, now⟩ | gone
  · obtain ⟨registered', unauthenticated'⟩ := isGuest_iff.mp present
    obtain ⟨nick', nicked'⟩ := isSome_iff_exists.mp
      ((named.valid party.conn holder found).complete registered')
    have folded : holder.identity cfg.casemap = session.identity cfg.casemap :=
      (congrArg Party.identity now).symm.trans identity
    rw [identity_of_nick unauthenticated nicked,
      identity_of_nick unauthenticated' nicked'] at folded
    obtain here := named.unique _ holder conn session found held nick' nicked' nick nicked
      (List.cons.inj folded).2
    rw [here] at found now
    rw [now, some.inj (found.symm.trans held)]
  · rcases gone (cfg.home conn) with handled | coming
    · exact absurd part (forgotten _ party handled key entry stored message sent same)
    · exact absurd identity.symm (accounted.vacant _ conn party coming session held guest)

/-- Nothing happens to the sessions, and no release is queued or lost. -/
theorem Accounted.of_sessions (accounted : s.Accounted cfg) (sessions : s'.sessions = s.sessions)
    (tenure : s'.copies.tenure = s.copies.tenure)
    (sent : ∀ message ∈ s'.copies.sent, message ∈ s.copies.sent ∨
      ∀ party ∈ message.parties, party.identity.head? = some (byte '~') → s.Current cfg party)
    (gone : ∀ party, s.copies.Gone cfg party → s'.copies.Gone cfg party)
    (links : ∀ src dst party, .unauthenticatedIdentityReleased party ∈ s'.copies.links src dst →
      .unauthenticatedIdentityReleased party ∈ s.copies.links src dst) : s'.Accounted cfg := by
  have current (party : Party) : s.Current cfg party → s'.Current cfg party := by
    rintro ⟨session, held, guest, now⟩
    exact ⟨session, sessions ▸ held, guest, by rw [now]; simp [State.party, tenure]⟩
  refine ⟨fun message mem party part tilde => ?_, fun src conn party coming session held => ?_⟩
  · rcases sent message mem with old | new
    · rcases accounted.parties message old party part tilde with now | left
      · exact .inl (current party now)
      · exact .inr (gone party left)
    · exact .inl (current party (new party part tilde))
  · exact accounted.vacant src conn party (links _ _ party coming) session (sessions ▸ held)

section Releases

variable {next : Option Bytes} {nick : Bytes}

theorem of_releases_eq_some (gone : releases cfg session next = some nick) :
    session.nick = some nick ∧ session.account = none := by
  unfold releases at gone
  cases next with
  | some new =>
    rw [ite_none_right_eq_some] at gone
    obtain ⟨change, nicked⟩ := gone
    simp only [Bool.and_eq_true, isNone_iff_eq_none] at change
    exact ⟨nicked, change.1.2⟩
  | none =>
    rw [ite_none_right_eq_some] at gone
    exact ⟨gone.2, isNone_iff_eq_none.mp gone.1⟩

/-- A guest who logs in or leaves always lets go of a nick. -/
theorem releases_ne_none (valid : session.Valid cfg) (guest : session.isGuest = true) :
    releases cfg session none ≠ none := by
  obtain ⟨registered, unauthenticated⟩ := isGuest_iff.mp guest
  obtain ⟨nick, nicked⟩ := isSome_iff_exists.mp (valid.complete registered)
  simp [releases, unauthenticated, nicked]

/-- A guest who changes nick without letting go only changes its case. -/
theorem identity_of_releases_eq_none (valid : session.Valid cfg) (guest : session.isGuest = true)
    (stays : releases cfg session (some nick) = none) :
    session.identity cfg.casemap = unauthenticatedIdentity cfg.casemap nick := by
  obtain ⟨registered, unauthenticated⟩ := isGuest_iff.mp guest
  obtain ⟨old, nicked⟩ := isSome_iff_exists.mp (valid.complete registered)
  rw [identity_of_nick unauthenticated nicked]
  have folded : cfg.casemap.casefold old = cfg.casemap.casefold nick := by
    simpa [releases, registered, unauthenticated, nicked] using stays
  exact congrArg (byte '~' :: ·) folded

end Releases

variable [DecidableEq Shard]

section LetGo

variable (cfg s conn) (released : Option Bytes)

/-- The party whose tenure ends when `conn` lets go of `nick`. -/
def leaving (nick : Bytes) : Party :=
  ⟨conn, s.copies.tenure conn, unauthenticatedIdentity cfg.casemap nick⟩

theorem letGo_sent : (s.letGo cfg conn released).sent = s.copies.sent := by
  cases released <;> rfl

theorem letGo_tenure {other : ConnId} (same : other ≠ conn ∨ released = none) :
    (s.letGo cfg conn released).tenure other = s.copies.tenure other := by
  rcases same with apart | rfl
  · cases released with
    | none => rfl
    | some nick => exact Function.update_of_ne apart ..
  · rfl

theorem mem_letGo_handled {shard : Shard} {party : Party} :
    (shard, party) ∈ (s.letGo cfg conn released).handled ↔ (shard, party) ∈ s.copies.handled ∨
      ∃ nick ∈ released, shard = cfg.home conn ∧ party = leaving cfg s conn nick := by
  cases released with
  | none => simp [letGo]
  | some nick =>
    simp [letGo, releaseUnauthenticatedIdentity, forgetUnauthenticatedIdentity,
      leaving, or_comm]

theorem mem_letGo_links {src dst : Shard} {input : ShardInput} :
    input ∈ (s.letGo cfg conn released).links src dst ↔ input ∈ s.copies.links src dst ∨
      ∃ nick ∈ released, (src = cfg.home conn ∧ dst ≠ cfg.home conn) ∧
        input = .unauthenticatedIdentityReleased (leaving cfg s conn nick) := by
  cases released with
  | none => simp [letGo]
  | some nick =>
    simp [letGo, releaseUnauthenticatedIdentity, forgetUnauthenticatedIdentity,
      leaving, Links.mem_broadcast]

end LetGo

/-- One session changes, or leaves, and lets go of its identity if it was a
guest that does not go on under the same one. -/
theorem Accounted.moves (accounted : s.Accounted cfg) (named : s.Named cfg) (conn : ConnId)
    (released : Option Bytes)
    (others : ∀ other ≠ conn, s'.sessions.lookup other = s.sessions.lookup other)
    (copies : s'.copies = s.letGo cfg conn released)
    (free : ∀ next, s'.sessions.lookup conn = some next → next.isGuest = true →
      s.copies.Freed (next.identity cfg.casemap) (cfg.home conn))
    (left : ∀ nick ∈ released, ∃ session, s.sessions.lookup conn = some session ∧
      session.nick = some nick ∧ session.account = none)
    (stays : ∀ session, s.sessions.lookup conn = some session → session.isGuest = true →
      released = none → ∃ next, s'.sessions.lookup conn = some next ∧ next.isGuest = true ∧
        next.identity cfg.casemap = session.identity cfg.casemap) : s'.Accounted cfg := by
  refine ⟨fun message mem party part tilde => ?_, fun src other party coming holder found guest => ?_⟩
  · rw [copies, letGo_sent] at mem
    rcases accounted.parties message mem party part tilde with ⟨now, found, guest, same⟩ | gone
    · rcases eq_or_ne party.conn conn with here | apart
      · rw [here] at found same
        cases released with
        | none =>
          obtain ⟨next, found', guest', identity⟩ := stays now found guest rfl
          refine .inl ⟨next, here ▸ found', guest', ?_⟩
          rw [same]
          simp [State.party, copies, letGo, identity]
        | some nick =>
          -- The party is the one that lets go now.
          obtain ⟨session, held, nicked, unauthenticated⟩ := left nick rfl
          cases held.symm.trans found
          have leaves : party = leaving cfg s conn nick := by
            rw [same, State.party, leaving, identity_of_nick unauthenticated nicked]
          refine .inr fun shard => ?_
          rw [copies, mem_letGo_handled, mem_letGo_links, here]
          rcases eq_or_ne shard (cfg.home conn) with own | other
          · exact .inl (.inr ⟨nick, rfl, own, leaves⟩)
          · exact .inr (.inr ⟨nick, rfl, ⟨rfl, other⟩, congrArg _ leaves⟩)
      · refine .inl ⟨now, (others _ apart).trans found, guest, ?_⟩
        rw [same]
        simp only [State.party, copies]
        rw [letGo_tenure cfg s conn released (.inl apart)]
    · refine .inr fun shard => ?_
      rw [copies, mem_letGo_handled, mem_letGo_links]
      exact (gone shard).imp .inl .inl
  · rw [copies, mem_letGo_links] at coming
    rcases eq_or_ne other conn with rfl | apart
    · rcases coming with before | ⟨-, -, ⟨-, elsewhere⟩, -⟩
      · exact (of_decide_eq_false (free holder found guest src _ before)).imp Eq.symm
      · exact absurd rfl elsewhere
    · rw [others other apart] at found
      rcases coming with before | ⟨nick, let_go, -, new⟩
      · exact accounted.vacant src other party before holder found guest
      -- Two sessions would hold the nick at once.
      cases new
      obtain ⟨session, held, nicked, -⟩ := left nick let_go
      obtain ⟨registered, unauthenticated⟩ := isGuest_iff.mp guest
      obtain ⟨nick', nicked'⟩ := isSome_iff_exists.mp
        ((named.valid other holder found).complete registered)
      rw [identity_of_nick unauthenticated nicked']
      intro same
      exact apart (named.unique other holder conn session found held nick' nicked' nick nicked
        (List.cons.inj same).2)

/-! ## Runs -/

/-- The session an event makes let go of its `~nick`, and the nick. -/
def released (cfg : Config Shard) (s : State Shard) : Event Shard → Option (ConnId × Bytes)
  | .nick conn nick =>
    (s.sessions.lookup conn).bind fun session => (releases cfg session (some nick)).map (conn, ·)
  | .login conn _ | .close conn =>
    (s.sessions.lookup conn).bind fun session => (releases cfg session none).map (conn, ·)
  | _ => none

/-- The session an event makes a guest, or a guest under another nick, and the
identity it then has. -/
def taken (cfg : Config Shard) (s : State Shard) : Event Shard → Option (ConnId × Bytes)
  | .nick conn nick =>
    ((s.sessions.lookup conn).filter isGuest).map fun _ =>
      (conn, unauthenticatedIdentity cfg.casemap nick)
  | .register conn =>
    ((s.sessions.lookup conn).filter fun session => session.account.isNone).map fun session =>
      (conn, session.identity cfg.casemap)
  | .logout conn =>
    ((s.sessions.lookup conn).filter fun session => session.registered).map fun session =>
      (conn, unauthenticatedIdentity cfg.casemap (session.nick.getD []))
  | _ => none

/-- A session lets go of its identity only when none of its messages is on its
way to its shard, and takes one only when no release of it is. -/
def Settled (cfg : Config Shard) (s : State Shard) (event : Event Shard) : Prop :=
  (∀ going ∈ s.released cfg event,
    s.copies.Arrived (leaving cfg s going.1 going.2) (cfg.home going.1)) ∧
  ∀ coming ∈ s.taken cfg event, s.copies.Freed coming.2 (cfg.home coming.1)

instance [Fintype Shard] (cfg : Config Shard) (s : State Shard) (event : Event Shard) :
    Decidable (s.Settled cfg event) :=
  inferInstanceAs (Decidable
    ((∀ going ∈ s.released cfg event, ∀ src, ∀ input ∈ s.copies.links src (cfg.home going.1),
      input.carries (leaving cfg s going.1 going.2) = false) ∧
    ∀ coming ∈ s.taken cfg event, ∀ src, ∀ input ∈ s.copies.links src (cfg.home coming.1),
      input.frees coming.2 = false))

theorem kept_letGo (kept : s.copies.Kept cfg) {released : Option Bytes}
    (arrived : ∀ nick ∈ released, s.copies.Arrived (leaving cfg s conn nick) (cfg.home conn)) :
    (s.letGo cfg conn released).Kept cfg := by
  cases released with
  | none => exact kept
  | some nick => exact kept.releaseUnauthenticatedIdentity (arrived nick rfl)

theorem kept_step {event : Event Shard} (kept : s.copies.Kept cfg) (named : s.Named cfg)
    (settled : s.Settled cfg event) (step : s.step cfg event = some s') : s'.copies.Kept cfg := by
  cases event with
  | connect conn =>
    obtain ⟨-, rfl⟩ := guard_some_eq_some.mp step
    exact kept
  | nick conn nick | login conn account =>
    obtain ⟨session, held, step⟩ := bind_eq_some_iff.mp step
    obtain ⟨-, rfl⟩ := guard_some_eq_some.mp step
    exact kept_letGo kept fun old gone =>
      settled.1 (conn, old) (by simp [released, held, mem_def.mp gone])
  | register conn =>
    obtain ⟨session, held, step⟩ := bind_eq_some_iff.mp step
    obtain ⟨-, rfl⟩ := guard_some_eq_some.mp step
    exact kept
  | logout conn =>
    obtain ⟨session, held, step⟩ := bind_eq_some_iff.mp step
    cases step
    exact kept
  | close conn =>
    obtain ⟨session, held, step⟩ := bind_eq_some_iff.mp step
    cases step
    exact kept_letGo kept fun old gone =>
      settled.1 (conn, old) (by simp [released, held, mem_def.mp gone])
  | message src dst entry =>
    obtain ⟨sender, sending, step⟩ := bind_eq_some_iff.mp step
    obtain ⟨peer, receiving, step⟩ := bind_eq_some_iff.mp step
    obtain ⟨⟨-, fresh⟩, rfl⟩ := guard_some_eq_some.mp step
    refine kept.recordConversation (fresh_iff.mp fresh) ?_ (named.valid src sender sending).isIdentity
      (named.valid dst peer receiving).isIdentity
    intro party part
    rcases List.mem_pair.mp part with rfl | rfl <;> rfl
  | channelMessage shard key entry =>
    obtain ⟨⟨-, fresh⟩, rfl⟩ := guard_some_eq_some.mp step
    have logged := kept.log ⟨entry.msgid, key, []⟩ (fresh_iff.mp fresh) (by simp)
    exact logged.pushHistory _ List.mem_cons_self rfl (by simp)
  | deliver src dst =>
    obtain ⟨⟨input, links⟩, received, step⟩ := bind_eq_some_iff.mp step
    cases step
    exact kept.deliver received

theorem accounted_step {event : Event Shard} (accounted : s.Accounted cfg) (named : s.Named cfg)
    (settled : s.Settled cfg event) (step : s.step cfg event = some s') : s'.Accounted cfg := by
  cases event with
  | connect conn =>
    obtain ⟨absent, rfl⟩ := guard_some_eq_some.mp step
    refine accounted.moves named conn none
      (fun _ apart => lookup_insert_ne apart) rfl ?_ (by simp) ?_
    · intro next found guest
      rw [lookup_insert] at found
      cases found
      exact absurd guest (by decide)
    · intro session held
      rw [lookup_eq_none.mpr absent] at held
      cases held
  | nick conn nick =>
    obtain ⟨session, held, step⟩ := bind_eq_some_iff.mp step
    obtain ⟨-, rfl⟩ := guard_some_eq_some.mp step
    refine accounted.moves named conn _ (fun _ apart => lookup_insert_ne apart) rfl
      ?_ (fun old gone => ⟨session, held, of_releases_eq_some gone⟩) ?_
    · intro next found guest
      rw [changeClaimedNick, lookup_insert] at found
      cases found
      have unauthenticated := (isGuest_iff.mp guest).2
      rw [identity_of_nick unauthenticated rfl]
      refine settled.2 (conn, unauthenticatedIdentity cfg.casemap nick) ?_
      have before : session.isGuest = true := guest
      simp [taken, held, before]
    · intro session' held' guest stays
      cases held.symm.trans held'
      refine ⟨_, lookup_insert _, guest, ?_⟩
      rw [identity_of_releases_eq_none (named.valid conn session held) guest stays]
      simp [identity, (isGuest_iff.mp guest).2]
  | register conn =>
    obtain ⟨session, held, step⟩ := bind_eq_some_iff.mp step
    obtain ⟨-, rfl⟩ := guard_some_eq_some.mp step
    refine accounted.moves named conn none
      (fun _ apart => lookup_insert_ne apart) rfl ?_ (by simp) ?_
    · intro next found guest
      rw [lookup_insert] at found
      cases found
      have unauthenticated : session.account = none := (isGuest_iff.mp guest).2
      exact settled.2 (conn, session.identity cfg.casemap)
        (by simp [taken, held, unauthenticated])
    · intro session' held' guest _
      cases held.symm.trans held'
      have unauthenticated := (isGuest_iff.mp guest).2
      exact ⟨_, lookup_insert _, isGuest_iff.mpr ⟨rfl, unauthenticated⟩, rfl⟩
  | login conn account =>
    obtain ⟨session, held, step⟩ := bind_eq_some_iff.mp step
    obtain ⟨-, rfl⟩ := guard_some_eq_some.mp step
    refine accounted.moves named conn _ (fun _ apart => lookup_insert_ne apart) rfl
      ?_ (fun old gone => ⟨session, held, of_releases_eq_some gone⟩) ?_
    · intro next found guest
      rw [setAccount, lookup_insert] at found
      cases found
      simp [isGuest] at guest
    · intro session' held' guest stays
      cases held.symm.trans held'
      exact absurd stays (releases_ne_none (named.valid conn session held) guest)
  | logout conn =>
    obtain ⟨session, held, step⟩ := bind_eq_some_iff.mp step
    cases step
    refine accounted.moves named conn none
      (fun _ apart => lookup_insert_ne apart) rfl ?_ (by simp) ?_
    · intro next found guest
      rw [clearAccount, lookup_insert] at found
      cases found
      have registered : session.registered = true := (isGuest_iff.mp guest).1
      exact settled.2 (conn, unauthenticatedIdentity cfg.casemap (session.nick.getD []))
        (by simp [taken, held, registered])
    · intro session' held' guest _
      cases held.symm.trans held'
      obtain ⟨registered, unauthenticated⟩ := isGuest_iff.mp guest
      refine ⟨_, lookup_insert _, by simp [isGuest, registered], ?_⟩
      simp [identity, unauthenticated]
  | close conn =>
    obtain ⟨session, held, step⟩ := bind_eq_some_iff.mp step
    cases step
    refine accounted.moves named conn _ (fun _ apart => lookup_erase_ne apart) rfl
      ?_ (fun old gone => ⟨session, held, of_releases_eq_some gone⟩) ?_
    · intro next found
      simp [close] at found
    · intro session' held' guest stays
      cases held.symm.trans held'
      exact absurd stays (releases_ne_none (named.valid conn session held) guest)
  | message src dst entry =>
    obtain ⟨sender, sending, step⟩ := bind_eq_some_iff.mp step
    obtain ⟨peer, receiving, step⟩ := bind_eq_some_iff.mp step
    obtain ⟨⟨⟨speaks, listens⟩, -⟩, rfl⟩ := guard_some_eq_some.mp step
    have guestly {at_ : ConnId} {who : Session} (held : s.sessions.lookup at_ = some who)
        (registered : who.registered = true)
        (tilde : (who.identity cfg.casemap).head? = some (byte '~')) :
        s.Current cfg (s.party cfg at_ who) :=
      ⟨who, held, isGuest_iff.mpr
        ⟨registered, (named.valid at_ who held).account_eq_none tilde⟩, rfl⟩
    refine accounted.of_sessions rfl (by simp) ?_ ?_ ?_
    · intro message mem
      rw [recordConversation_sent] at mem
      rcases List.mem_cons.mp mem with rfl | old
      · refine .inr fun party part tilde => ?_
        rcases List.mem_pair.mp part with rfl | rfl
        · exact guestly sending speaks tilde
        · exact guestly receiving listens tilde
      · exact .inl old
    · intro party gone shard
      rw [recordConversation_handled, released_mem_recordConversation]
      exact gone shard
    · intro a b party coming
      exact released_mem_recordConversation.mp coming
  | channelMessage shard key entry =>
    obtain ⟨-, rfl⟩ := guard_some_eq_some.mp step
    refine accounted.of_sessions rfl rfl ?_ (fun _ gone => gone) (fun _ _ _ coming => coming)
    intro message mem
    rcases List.mem_cons.mp mem with rfl | old
    · exact .inr (by simp)
    · exact .inl old
  | deliver src dst =>
    obtain ⟨⟨input, links⟩, received, step⟩ := bind_eq_some_iff.mp step
    cases step
    have same : ∀ input, (handleInput cfg { s.copies with links } dst input).links = links ∧
        (handleInput cfg { s.copies with links } dst input).sent = s.copies.sent ∧
        (handleInput cfg { s.copies with links } dst input).tenure = s.copies.tenure := by
      intro input
      cases input <;> exact ⟨rfl, rfl, rfl⟩
    refine accounted.of_sessions rfl (same input).2.2 ?_ ?_ ?_
    · intro message mem
      rw [(same input).2.1] at mem
      exact .inl mem
    · intro party gone shard
      rw [(same input).1]
      rcases gone shard with handled | coming
      · left
        cases input with
        | conversationEntry key entry parties => exact handled
        | unauthenticatedIdentityReleased other => exact List.mem_cons_of_mem _ handled
      · rcases Links.mem_or_eq_of_receive received coming with still | ⟨⟨-, rfl⟩, rfl⟩
        · exact .inr still
        · exact .inl List.mem_cons_self
    · intro a b party coming
      rw [(same input).1] at coming
      exact Links.mem_of_receive received coming

end State

section Results

variable [DecidableEq Shard]

/-- In every run in which a session lets go of its `~nick` only when no message
of its own is on its way to its shard, and takes one only when no release of it
is, no shard holds a message of a party whose release it has handled, and a
guest's shard holds nobody else's messages under the guest's identity. -/
theorem core_forgets_released (cfg : Config Shard) (events : List (Event Shard)) (s : State Shard)
    (run : (core cfg).Run (fun _ s event => s.Settled cfg event) events s) :
    s.copies.Forgotten ∧ s.Private cfg := by
  have invariant : s.copies.Kept cfg ∧ s.Named cfg ∧ s.Accounted cfg := by
    refine run.invariant (P := fun _ s => s.copies.Kept cfg ∧ s.Named cfg ∧ s.Accounted cfg)
      ⟨kept_empty, ⟨by simp [core, init], by simp [core, init]⟩,
        by simp [core, init], by simp [core, init]⟩ ?_
    rintro _ s event s' ⟨kept, named, accounted⟩ settled step
    exact ⟨kept_step kept named settled step, named.step step,
      accounted_step accounted named settled step⟩
  obtain ⟨kept, named, accounted⟩ := invariant
  exact ⟨kept.forgotten, accounted.toPrivate named kept.forgotten⟩

end Results

/-! ## A message that crosses a release -/

instance neZeroTwo : NeZero 2 := ⟨by decide⟩

/-- Two shards, every other connection on the second. -/
def twoShards : Config (Fin 2) where
  home conn := if conn % 2 = 0 then 0 else 1
  casemap := .rfc1459
  nickLen := 16
  saslEnabled := false
  bounds := ⟨100, 100000, 100000⟩

/-- A guest on each shard, and a message from the second to the first. -/
def messageToGuest : List (Event (Fin 2)) :=
  [.connect 0, .nick 0 (ascii "bob"), .register 0, .connect 1, .nick 1 (ascii "alice"),
    .register 1, .message 1 0 (.plain (ascii "m1") 1)]

/-- The guest leaves, the message arrives, and another takes the nick. -/
def crossing : List (Event (Fin 2)) :=
  messageToGuest ++ [.close 0, .deliver 1 0, .connect 2, .nick 2 (ascii "bob"), .register 2]

/-- The guest leaves while the message is on its way: its shard frees the rings
of `~bob` and then keeps the message under it, where the next `bob` finds it. -/
theorem core_keeps_message_of_released :
    ∃ s, (core twoShards).Run System.anyStep crossing s ∧
      ¬ s.copies.Forgotten ∧ ¬ s.Private twoShards := by
  let bob : Party := ⟨0, 0, ascii "~bob"⟩
  let message : Sent := ⟨ascii "m1", ⟨ascii "~alice!~bob"⟩, [⟨1, 0, ascii "~alice"⟩, bob]⟩
  have observed : ((core twoShards).exec crossing).map (fun s => (s.copies.handled, s.copies.sent,
      ((s.copies.history 0).rings.lookup message.key).map HistoryRing.entries,
      s.sessions.lookup 2)) =
      some ([(0, bob)], [message], some [.plain (ascii "m1") 1],
        some ⟨some (ascii "bob"), none, true⟩) := by
    decide
  obtain ⟨s, replay, seen⟩ := System.exists_run observed
  simp only [Prod.mk.injEq] at seen
  obtain ⟨handled, sent, ring, next⟩ := seen
  obtain ⟨ring, found, entries⟩ := map_eq_some_iff.mp ring
  have held : (s.copies.history 0).Holds message.key (.plain (ascii "m1") 1) :=
    ⟨ring, found, by simp [entries]⟩
  refine ⟨s, replay, fun forgotten => ?_, fun own => ?_⟩
  · exact forgotten 0 bob (by simp [handled]) _ _ held message (by simp [sent]) rfl (by simp [message])
  · have same := own 2 _ next rfl _ _ held message (by simp [sent]) rfl bob (by simp [message]) rfl
    exact absurd (congrArg Party.conn same) (show (0 : ℕ) ≠ 2 by decide)

/-- The message arrives before the guest leaves, and the release before another
takes the nick on the other shard. -/
theorem core_forgets_released_of_settled :
    ∃ s, (core twoShards).Run (fun _ s event => s.Settled twoShards event)
        (messageToGuest ++ [.deliver 1 0, .close 0, .deliver 0 1, .connect 3,
          .nick 3 (ascii "bob"), .register 3]) s ∧
      s.copies.Forgotten ∧ s.Private twoShards := by
  have replayed : ∃ s, ((core twoShards).restrict fun s event => s.Settled twoShards event).exec
      (messageToGuest ++ [.deliver 1 0, .close 0, .deliver 0 1, .connect 3,
        .nick 3 (ascii "bob"), .register 3]) = some s :=
    isSome_iff_exists.mp (by decide)
  obtain ⟨s, replay⟩ := replayed
  have run : (core twoShards).Run (fun _ s event => s.Settled twoShards event) _ s :=
    (System.run_of_exec replay).of_restrict.mono fun _ _ _ => of_decide_eq_true
  exact ⟨s, run, core_forgets_released twoShards _ s run⟩

end E6irc.Sharded
