import E6irc.Core.ChannelModes

/-!
# Invitations and the modes they pass

An invitation passes `+i` and `+l`, so a channel should hold one only while it has
either.  Every operation but the enforcement of a mode lock keeps that: MODE takes
the invitations back when it opens the channel, letter by letter.  A lock that turns
`+i` off does not.
-/

namespace E6irc.Modes

open Base List Channel ModeLoop State System

/-- An invitation is held only where it can be needed. -/
def Channel.Kept (chan : Channel) : Prop :=
  chan.invited ≠ [] → chan.modes.inviteOnly = true ∨ chan.modes.limit.isSome = true

/-- A change of the channel that grants no invitation. -/
structure Channel.Steady (chan after : Channel) : Prop where
  fewer : after.invited ⊆ chan.invited
  kept : chan.Kept → after.Kept

namespace Channel.Steady

variable {chan mid after : Channel}

theorem refl (chan : Channel) : chan.Steady chan := ⟨List.Subset.refl _, id⟩

theorem trans (first : chan.Steady mid) (second : mid.Steady after) : chan.Steady after :=
  ⟨List.Subset.trans second.fewer first.fewer, second.kept ∘ first.kept⟩

/-- What changes neither the invitations nor the modes they pass. -/
theorem of_same (invited : after.invited = chan.invited)
    (inviteOnly : after.modes.inviteOnly = chan.modes.inviteOnly)
    (limit : after.modes.limit = chan.modes.limit) : chan.Steady after := by
  refine ⟨invited ▸ List.Subset.refl _, fun kept => ?_⟩
  unfold Kept
  rw [invited, inviteOnly, limit]
  exact kept

/-- What takes every invitation back. -/
theorem of_revoked (none : after.invited = []) : chan.Steady after :=
  ⟨none ▸ nil_subset _, fun _ some => absurd none some⟩

/-- What leaves a mode that an invitation passes. -/
theorem of_restricted (fewer : after.invited ⊆ chan.invited)
    (restricted : after.modes.inviteOnly = true ∨ after.modes.limit.isSome = true) :
    chan.Steady after :=
  ⟨fewer, fun _ _ => restricted⟩

end Channel.Steady

/-! ## Flags -/

theorem inviteOnly_setFlag (modes : ChanModes) (value : Bool) (c : Char) :
    (modes.setFlag value c).inviteOnly = if c = 'i' then value else modes.inviteOnly := by
  unfold ChanModes.setFlag
  split <;> simp_all

theorem limit_setFlag (modes : ChanModes) (value : Bool) (c : Char) :
    (modes.setFlag value c).limit = modes.limit := by
  unfold ChanModes.setFlag
  split <;> rfl

theorem inviteOnly_foldl_setFlag (modes : ChanModes) (value : Bool) (cs : List Char) :
    (cs.foldl (·.setFlag value ·) modes).inviteOnly =
      if 'i' ∈ cs then value else modes.inviteOnly := by
  induction cs generalizing modes with
  | nil => rfl
  | cons c cs ih =>
    rw [foldl_cons, ih, inviteOnly_setFlag]
    by_cases here : c = 'i'
    · simp [here]
    · have apart : 'i' ≠ c := fun same => here same.symm
      simp [here, apart]

theorem limit_foldl_setFlag (modes : ChanModes) (value : Bool) (cs : List Char) :
    (cs.foldl (·.setFlag value ·) modes).limit = modes.limit := by
  induction cs generalizing modes with
  | nil => rfl
  | cons c cs ih => rw [foldl_cons, ih, limit_setFlag]

/-! ## MODE -/

section

variable (ipnet : Ipnet) (casemap : CaseMapping) (lock : Option MlockModes) (st : ModeLoop) (c : Char)

theorem steady_flagMode : st.channel.Steady (st.flagMode lock c).channel := by
  unfold flagMode
  dsimp only
  split
  · exact .refl _
  split
  · dsimp only [announce]
    by_cases opens : c = 'i' ∧ st.adding = false
    · exact .of_revoked (if_pos opens)
    by_cases closes : c = 'i'
    · refine .of_restricted (by simp [opens]) (.inl ?_)
      rw [inviteOnly_setFlag, if_pos closes]
      simpa [closes] using opens
    · refine .of_same (if_neg opens) ?_ (limit_setFlag _ _ _)
      rw [inviteOnly_setFlag, if_neg closes]
  · exact .refl _

theorem steady_keyMode : st.channel.Steady st.keyMode.channel := by
  unfold keyMode
  dsimp only
  split
  · split
    · exact .refl _
    split
    · split
      · exact .of_same rfl rfl rfl
      · exact .refl _
    · exact .refl _
  · split
    · exact .of_same rfl rfl rfl
    · exact .refl _

theorem steady_limitMode : st.channel.Steady st.limitMode.channel := by
  unfold limitMode
  dsimp only
  split
  · split
    · exact .refl _
    split
    · exact .refl _
    · split
      · exact .of_restricted (List.Subset.refl _) (.inr rfl)
      · exact .refl _
  split
  · dsimp only [announce]
    by_cases closed : st.channel.modes.inviteOnly = true
    · exact .of_restricted (by simp [closed]) (.inl closed)
    · exact .of_revoked (if_neg closed)
  · exact .refl _

theorem steady_setList (chan : Channel) (masks : List MaskKey) :
    chan.Steady (chan.setList masks c) := by
  unfold setList
  split <;> exact .of_same rfl rfl rfl

theorem steady_listMode : st.channel.Steady (st.listMode ipnet casemap c).channel := by
  unfold listMode
  dsimp only
  split
  · exact .refl _
  split
  · exact .refl _
  split
  · split
    · exact .refl _
    · exact steady_setList c st.channel _
  · split
    · exact steady_setList c st.channel _
    · exact .refl _

theorem steady_statusMode : st.channel.Steady (st.statusMode casemap c).channel := by
  unfold statusMode
  dsimp only
  split
  · exact .refl _
  split
  · exact .refl _
  split
  · exact .refl _
  rename_i member _
  by_cases changes : (if c = 'o' then member.op else member.voice) ≠ st.adding
  · rw [if_pos changes]
    exact .of_same rfl rfl rfl
  · rw [if_neg changes]
    exact .refl _

theorem steady_applyMode : st.channel.Steady (st.applyMode ipnet casemap lock c).channel := by
  unfold applyMode
  split
  · exact .refl _
  split
  · exact .refl _
  split
  · exact steady_flagMode lock st c
  split
  · exact steady_keyMode st
  split
  · exact steady_limitMode st
  split
  · exact steady_listMode ipnet casemap st c
  split
  · exact steady_statusMode casemap st c
  · exact .refl _

theorem steady_letter : st.channel.Steady (st.letter ipnet casemap lock c).channel := by
  unfold letter
  dsimp only
  split
  · split
    · exact .refl _
    · exact steady_applyMode ipnet casemap lock { st with parameterModes := st.parameterModes + 1 } c
  · exact steady_applyMode ipnet casemap lock st c

theorem steady_letters (letters : List Char) :
    st.channel.Steady (letters.foldl (letter ipnet casemap lock) st).channel := by
  induction letters generalizing st with
  | nil => exact .refl _
  | cons c letters ih => exact (steady_letter ipnet casemap lock st c).trans (ih _)

theorem steady_channelModeBy (chan : Channel) (conn : ConnId) (letters : Option (List Char))
    (args : List Bytes) :
    chan.Steady (chan.channelModeBy ipnet casemap lock conn letters args).1 := by
  unfold channelModeBy
  split
  · exact .refl _
  split
  · exact .refl _
  · exact steady_letters ipnet casemap lock ⟨chan, true, args, 0, []⟩ _

end

/-! ## Locks, INVITE and JOIN -/

/-- What enforcing a lock makes of `+i`. -/
theorem inviteOnly_enforceMlock (chan : Channel) (m : MlockModes) :
    (chan.enforceMlock m).modes.inviteOnly =
      if chan.modes.inviteOnly then !m.off.contains 'i' else m.on.contains 'i' := by
  simp only [enforceMlock]
  rw [inviteOnly_foldl_setFlag, inviteOnly_foldl_setFlag]
  cases closed : chan.modes.inviteOnly <;>
    simp [ChanModes.flag, closed]

theorem limit_enforceMlock (chan : Channel) (m : MlockModes) :
    (chan.enforceMlock m).modes.limit = chan.modes.limit := by
  simp only [enforceMlock]
  rw [limit_foldl_setFlag, limit_foldl_setFlag]

/-- A lock that opens the channel keeps its invitations where they can be needed only
if there are none or a limit is left. -/
theorem kept_enforceMlock {chan : Channel} (kept : chan.Kept) (m : MlockModes) :
    (chan.enforceMlock m).Kept ↔ (chan.modes.inviteOnly = true → 'i' ∈ m.off →
      chan.invited = [] ∨ chan.modes.limit.isSome = true) := by
  have invited : (chan.enforceMlock m).invited = chan.invited := rfl
  unfold Kept at kept ⊢
  rw [invited, inviteOnly_enforceMlock, limit_enforceMlock]
  by_cases none : chan.invited = []
  · simp [none]
  cases closed : chan.modes.inviteOnly with
  | false =>
    have limited := kept none
    rw [closed] at limited
    simp_all
  | true => by_cases opens : 'i' ∈ m.off <;> simp_all

theorem evict_subset (invitee : ConnId) (order : List ConnId) :
    evict invitee order ⊆ order := by
  induction order with
  | nil => exact List.Subset.refl _
  | cons victim holders ih =>
    rw [evict]
    split
    · exact List.Subset.trans ih (subset_cons_self _ _)
    · exact List.Subset.refl _

/-- An INVITE grants no other invitation than its own, and only where it can be
needed. -/
theorem invited_inviteOnOwner {chan : Channel} {order : List ConnId} (actor invitee : ConnId)
    (walked : chan.invited.Perm order) :
    (chan.inviteOnOwner actor invitee order).invited ⊆ invitee :: chan.invited ∧
      (chan.Kept → (chan.inviteOnOwner actor invitee order).Kept) := by
  unfold inviteOnOwner
  split
  · exact ⟨subset_cons_self _ _, id⟩
  split
  · rename_i restricted
    refine ⟨fun conn among => ?_, fun _ _ => restricted⟩
    rcases mem_insert_iff.mp among with rfl | before
    · exact mem_cons_self
    · exact mem_cons_of_mem _ (walked.mem_iff.mpr (evict_subset invitee order before))
  · exact ⟨subset_cons_self _ _, id⟩

theorem steady_letIn (chan : Channel) (joiner : Joiner) (registered : Bool) :
    chan.Steady (chan.letIn joiner registered) := by
  have fewer : chan.invited.erase joiner.conn ⊆ chan.invited := erase_subset
  refine ⟨fewer, fun kept some => kept fun none => some ?_⟩
  exact subset_nil.mp (none ▸ fewer)

/-! ## Runs -/

namespace State

/-- The invitations held. -/
def invited (s : State) : List ConnId :=
  s.channel.elim [] (·.invited)

/-- An invitation would pass something. -/
def Restricted (s : State) : Prop :=
  ∃ chan, s.channel = some chan ∧ (chan.modes.inviteOnly = true ∨ chan.modes.limit.isSome = true)

def Kept (s : State) : Prop :=
  s.invited ≠ [] → s.Restricted

/-- A step that grants no invitation. -/
structure Steady (s after : State) : Prop where
  fewer : after.invited ⊆ s.invited
  kept : s.Kept → after.Kept

variable {s after : State} {chan : Channel}

theorem kept_iff (live : s.channel = some chan) : s.Kept ↔ chan.Kept := by
  simp [Kept, Restricted, invited, live, Channel.Kept]

theorem steady_of_channel {changed : Channel} (live : s.channel = some chan)
    (becomes : after.channel = some changed) (steady : chan.Steady changed) : s.Steady after := by
  refine ⟨?_, fun kept => (kept_iff becomes).mpr (steady.kept ((kept_iff live).mp kept))⟩
  simpa [invited, live, becomes] using steady.fewer

theorem steady_of_revoked (none : after.invited = []) : s.Steady after :=
  ⟨none ▸ nil_subset _, fun _ some => absurd none some⟩

theorem steady_of_none (gone : after.channel = none) : s.Steady after :=
  steady_of_revoked (by rw [invited, gone]; rfl)

theorem steady_of_same (same : after.channel = s.channel) : s.Steady after := by
  cases live : s.channel with
  | none => exact steady_of_none (same.trans live)
  | some chan => exact steady_of_channel live (same.trans live) (.refl chan)

theorem steady_change {f : Channel → Channel} (each : ∀ chan : Channel, chan.Steady (f chan)) :
    s.Steady (s.change f) := by
  cases live : s.channel with
  | none => exact steady_of_none (by simp [change, live])
  | some chan => exact steady_of_channel live (by simp [change, live]) (each chan)

theorem steady_removeMember (conn : ConnId) : s.Steady (s.removeMember conn) := by
  cases live : s.channel with
  | none => exact steady_of_none (by simp [removeMember, live])
  | some chan =>
    have left : (s.removeMember conn).channel =
        if (chan.members.erase conn).entries.isEmpty then none
        else some { chan with members := chan.members.erase conn } := by
      rw [removeMember, live]
      rfl
    split at left
    · exact steady_of_none left
    · exact steady_of_channel live left (.of_same rfl rfl rfl)

variable {ipnet : Ipnet} {casemap : CaseMapping}

theorem steady_joinOnOwner (joiner : Joiner) (joinKey : Option Bytes) (registered : Bool) :
    s.Steady (s.joinOnOwner ipnet casemap joiner joinKey registered) := by
  unfold joinOnOwner
  dsimp only
  split
  · exact steady_of_same rfl
  split
  · exact steady_of_same rfl
  obtain ⟨_ | chan, _ | m⟩ := s
  -- a channel just created holds no invitation
  · exact steady_of_revoked rfl
  · exact steady_of_revoked rfl
  · exact steady_of_channel rfl rfl (steady_letIn chan joiner registered)
  · exact steady_of_channel rfl rfl (steady_letIn chan joiner registered)

end State

/-- The event is an INVITE of the connection. -/
def Event.Invites (conn : ConnId) : Event → Prop
  | .invite _ invitee _ => invitee = conn
  | _ => False

/-- The event enforces a lock that opens the channel, while it holds invitations that
no limit keeps. -/
def Event.Strands (s : State) : Event → Prop
  | .enforce => ∃ chan m, s.channel = some chan ∧ s.lock = some m ∧
      chan.modes.inviteOnly = true ∧ 'i' ∈ m.off ∧ chan.modes.limit = none ∧ chan.invited ≠ []
  | _ => False

section

variable {ipnet : Ipnet} {casemap : CaseMapping} {s after : State}

theorem steady_apply {event : Event} (step : event.apply ipnet casemap s = some after)
    (notInvite : ∀ actor invitee order, event ≠ .invite actor invitee order)
    (notEnforce : event ≠ .enforce) : s.Steady after := by
  cases event with
  | join joiner joinKey registered =>
    cases step
    exact steady_joinOnOwner joiner joinKey registered
  | invite actor invitee order => exact absurd rfl (notInvite _ _ _)
  | mode conn letters args =>
    cases step
    exact steady_change fun chan => steady_channelModeBy ipnet casemap s.lock chan conn letters args
  | setLock spec =>
    cases spec with
    | none =>
      cases step
      exact steady_of_same rfl
    | some spec =>
      obtain ⟨m, -, rfl⟩ := Option.map_eq_some_iff.mp step
      exact steady_of_same rfl
  | enforce => exact absurd rfl notEnforce
  | part conn =>
    cases step
    unfold partOnOwner
    split
    · exact steady_removeMember conn
    · exact steady_of_same rfl
  | kick conn who =>
    cases step
    unfold kickOnOwner
    split
    · exact steady_of_same rfl
    split
    · split
      · exact steady_of_same rfl
      · exact steady_removeMember _
    · exact steady_of_same rfl
  | quit conn =>
    cases step
    split
    · exact steady_removeMember conn
    · exact steady_of_same rfl
  | status conn op voice =>
    cases step
    refine steady_change fun chan => ?_
    split
    · exact .refl _
    · exact .of_same rfl rfl rfl

attribute [local simp] State.change

/-- An INVITE keeps the invitations where they can be needed, and grants one. -/
theorem apply_invite {actor invitee : ConnId} {order : List ConnId}
    (step : (Event.invite actor invitee order).apply ipnet casemap s = some after) :
    after.invited ⊆ invitee :: s.invited ∧ (s.Kept → after.Kept) := by
  obtain ⟨walked, rfl⟩ := guard_some_eq_some.mp step
  cases live : s.channel with
  | none =>
    have gone : (s.change (·.inviteOnOwner actor invitee order)).channel = none := by
      simp [live]
    have steady : s.Steady _ := steady_of_none gone
    exact ⟨List.Subset.trans steady.fewer (subset_cons_self _ _), steady.kept⟩
  | some chan =>
    have becomes : (s.change (·.inviteOnOwner actor invitee order)).channel =
        some (chan.inviteOnOwner actor invitee order) := by
      simp [live]
    rw [live] at walked
    obtain ⟨grants, keeps⟩ := invited_inviteOnOwner actor invitee
      (isPerm_iff.mp walked)
    refine ⟨?_, fun kept => (kept_iff becomes).mpr (keeps ((kept_iff live).mp kept))⟩
    simpa [State.invited, live, becomes] using grants

/-- Who holds an invitation held it before, or the step granted it. -/
theorem apply_invited {event : Event} (step : event.apply ipnet casemap s = some after)
    {conn : ConnId} (holds : conn ∈ after.invited) : conn ∈ s.invited ∨ event.Invites conn := by
  by_cases invite : ∃ actor invitee order, event = .invite actor invitee order
  · obtain ⟨actor, invitee, order, rfl⟩ := invite
    rcases mem_cons.mp ((apply_invite step).1 holds) with rfl | before
    · exact .inr rfl
    · exact .inl before
  · by_cases enforce : event = .enforce
    · subst enforce
      cases step
      left
      cases live : s.channel with
      | none => simp [State.invited, live] at holds
      | some chan =>
        cases locked : s.lock <;>
          simpa [State.invited, live, locked, enforceMlock] using holds
    · have steady := steady_apply step (fun actor invitee order same =>
        invite ⟨actor, invitee, order, same⟩) enforce
      exact .inl (steady.fewer holds)

/-- A step keeps the invitations where they can be needed exactly if it strands none. -/
theorem apply_kept {event : Event} (step : event.apply ipnet casemap s = some after)
    (kept : s.Kept) : after.Kept ↔ ¬ event.Strands s := by
  by_cases invite : ∃ actor invitee order, event = .invite actor invitee order
  · obtain ⟨actor, invitee, order, rfl⟩ := invite
    exact iff_of_true ((apply_invite step).2 kept) id
  by_cases enforce : event = .enforce
  · subst enforce
    cases step
    cases live : s.channel with
    | none =>
      have gone : (s.change fun chan => s.lock.elim chan chan.enforceMlock).channel = none := by
        simp [live]
      have steady : s.Steady _ := steady_of_none gone
      exact iff_of_true (steady.kept kept) (by simp [Event.Strands, live])
    | some chan =>
      have becomes : (s.change fun chan => s.lock.elim chan chan.enforceMlock).channel =
          some (s.lock.elim chan chan.enforceMlock) := by
        simp [live]
      rw [kept_iff becomes]
      rw [kept_iff live] at kept
      cases locked : s.lock with
      | none => exact iff_of_true kept (by simp [Event.Strands, locked])
      | some m =>
        rw [Option.elim_some, kept_enforceMlock kept]
        simp only [Event.Strands, live, locked, Option.some.injEq, exists_and_left,
          exists_eq_left', not_and, not_not]
        cases chan.modes.limit <;> simp [or_comm]
  · have steady := steady_apply step (fun actor invitee order same =>
      invite ⟨actor, invitee, order, same⟩) enforce
    refine iff_of_true (steady.kept kept) ?_
    cases event with
    | enforce => exact absurd rfl enforce
    | _ => exact id

/-- Who holds an invitation held it at an earlier state, or was invited since. -/
theorem invited_since {front rest : List Event} {mid : State}
    (before : (channelRuns ipnet casemap).Run anyStep front mid)
    (run : (channelRuns ipnet casemap).Run anyStep (front ++ rest) s) {conn : ConnId}
    (holds : conn ∈ s.invited) : conn ∈ mid.invited ∨ ∃ event ∈ rest, event.Invites conn := by
  induction rest using List.reverseRecOn generalizing s with
  | nil =>
    rw [append_nil] at run
    rw [before.unique run]
    exact .inl holds
  | append_singleton rest event ih =>
    rw [← append_assoc] at run
    obtain ⟨last, earlier, -, step⟩ := run.snoc_inv
    rcases apply_invited step holds with held | grants
    · rcases ih earlier held with start | ⟨other, among, grants⟩
      · exact .inl start
      · exact .inr ⟨other, mem_append_left _ among, grants⟩
    · exact .inr ⟨event, mem_append_right _ mem_cons_self, grants⟩

/-- Along a run invitations are held only by a channel with `+i` or `+l`, and each was
granted after the channel was last open, exactly as long as no lock that turns `+i`
off is enforced on a channel that has no limit and holds an invitation. -/
theorem invitations_kept_iff {es : List Event}
    (run : (channelRuns ipnet casemap).Run anyStep es s) :
    (channelRuns ipnet casemap).Always (fun es s => (s.invited ≠ [] → s.Restricted) ∧
        ∀ front mid, front <+: es → (channelRuns ipnet casemap).Run anyStep front mid →
          ¬ mid.Restricted → ∀ conn ∈ s.invited,
            ∃ event ∈ es.drop front.length, event.Invites conn) es ↔
      (channelRuns ipnet casemap).Run (fun _ s event => ¬ event.Strands s) es s := by
  have kept : (channelRuns ipnet casemap).Always (fun _ s => s.Kept) es ↔
      (channelRuns ipnet casemap).Run (fun _ s event => ¬ event.Strands s) es s :=
    Run.always_iff (J := fun _ _ => True) (fun some => absurd rfl some) trivial
      (fun _ _ _ _ _ _ => trivial) (fun _ _ _ _ _ held step => apply_kept step held) run
  rw [← kept]
  constructor
  · exact fun always front mid part reached => (always front mid part reached).1
  intro always part last within reached
  refine ⟨always part last within reached, fun front mid inner before isOpen conn holds => ?_⟩
  obtain ⟨rest, rfl⟩ := inner
  rw [drop_left]
  rcases invited_since before reached holds with held | granted
  · have none := mt (always front mid ((prefix_append _ _).trans within) before) isOpen
    rw [not_not.mp none] at held
    cases held
  · exact granted

end

/-- A user without an account. -/
def visitor (conn : ConnId) (nick : String) : Joiner :=
  ⟨conn, ascii nick, .new (ascii nick ++ ascii "!u@host") none none, false, false, false⟩

/-- A channel is closed, and its operator invites. -/
def invitedIn : List Event :=
  [.join (visitor 1 "op") none false, .mode 1 (some ['+', 'i']) [], .invite 1 2 []]

theorem invitations_kept_invitedIn : ∃ s,
    (channelRuns .cidr .rfc1459).Run anyStep invitedIn s ∧
      ((channelRuns .cidr .rfc1459).Always (fun es s => (s.invited ≠ [] → s.Restricted) ∧
          ∀ front mid, front <+: es → (channelRuns .cidr .rfc1459).Run anyStep front mid →
            ¬ mid.Restricted → ∀ conn ∈ s.invited,
              ∃ event ∈ es.drop front.length, event.Invites conn) invitedIn ↔
        (channelRuns .cidr .rfc1459).Run (fun _ s event => ¬ event.Strands s) invitedIn s) := by
  obtain ⟨s, reached⟩ : ∃ s, (channelRuns .cidr .rfc1459).exec invitedIn = some s :=
    Option.isSome_iff_exists.mp (by decide +kernel)
  have run := run_of_exec reached
  exact ⟨s, run, invitations_kept_iff run⟩

/-- A lock opens the channel and the invitation stays; once the lock is gone and the
channel is closed again, it still admits. -/
theorem invitation_outlives_lock :
    (∃ s, (channelRuns .cidr .rfc1459).Run anyStep
        (invitedIn ++ [.setLock (some ['-', 'i']), .enforce]) s ∧
      s.invited = [2] ∧ ¬ s.Restricted) ∧
    ∃ s chan, (channelRuns .cidr .rfc1459).Run anyStep
        (invitedIn ++ [.setLock (some ['-', 'i']), .enforce, .setLock none,
          .mode 1 (some ['+', 'i']) [], .join (visitor 2 "guest") none false]) s ∧
      s.channel = some chan ∧ chan.modes.inviteOnly = true ∧ chan.isMember 2 = true := by
  constructor
  · have replay : ((channelRuns .cidr .rfc1459).exec
        (invitedIn ++ [.setLock (some ['-', 'i']), .enforce])).map (fun s => (s.invited,
          s.channel.map fun chan => (chan.modes.inviteOnly, chan.modes.limit))) =
        some ([2], some (false, none)) := by decide +kernel
    obtain ⟨s, reached, holds⟩ := Option.map_eq_some_iff.mp replay
    refine ⟨s, run_of_exec reached, (Prod.ext_iff.mp holds).1, ?_⟩
    rintro ⟨chan, live, restricted⟩
    have modes := (Prod.ext_iff.mp holds).2
    rw [live] at modes
    simp_all
  · have replay : ((channelRuns .cidr .rfc1459).exec
        (invitedIn ++ [.setLock (some ['-', 'i']), .enforce, .setLock none,
          .mode 1 (some ['+', 'i']) [], .join (visitor 2 "guest") none false])).map (fun s =>
            s.channel.map fun chan => (chan.modes.inviteOnly, chan.isMember 2)) =
        some (some (true, true)) := by decide +kernel
    obtain ⟨s, reached, holds⟩ := exists_run replay
    obtain ⟨chan, live, modes⟩ := Option.map_eq_some_iff.mp holds
    exact ⟨s, chan, reached, live, (Prod.ext_iff.mp modes).1, (Prod.ext_iff.mp modes).2⟩

end E6irc.Modes
