import E6irc.Core.MemberView

/-!
# How many channels a session waits for

The channels a session is in and those it has a JOIN in flight for are at most
`MAX_CHANNELS_PER_SESSION`: a JOIN is counted when it is sent, and its answer gives
back the place that the channel joined takes (`Session.Bounded.answered`).
-/

namespace E6irc.Membership

open Base List

/-! ## How many channels a session may come to be in -/

namespace Session

theorem mem_sessionChannels {session : Session} {key : ChanKey} :
    key ∈ session.sessionChannels ↔ key ∈ session.channels ∨ 0 < session.pendingJoins.count key := by
  simp only [sessionChannels, inFlight, joinsInFlight, mem_append, mem_filter, Tally.mem_keys]
  by_cases listed : key ∈ session.channels
  · simp [listed]
  · simp [listed]

theorem nodup_sessionChannels (session : Session) : session.sessionChannels.Nodup := by
  refine nodup_append.mpr ⟨session.nodup, session.pendingJoins.counts.keys_nodup.filter _, ?_⟩
  intro key listed other waiting same
  have apart := (mem_filter.mp waiting).2
  simp [← same, listed] at apart

/-- The channels it is in and those it waits for are not too many. -/
def Bounded (session : Session) : Prop :=
  session.sessionChannels.length ≤ maxChannelsPerSession

variable {before after : Session} {k : ChanKey}

theorem Bounded.of_subset (bounded : before.Bounded)
    (among : after.sessionChannels ⊆ before.sessionChannels) : after.Bounded :=
  (subperm_of_subset after.nodup_sessionChannels among).length_le.trans bounded

theorem Bounded.channels (bounded : before.Bounded) :
    before.channels.length ≤ maxChannelsPerSession :=
  Nat.le_trans (by simp [sessionChannels]) bounded

theorem bounded_new : Session.new.Bounded := by
  simp [Bounded, sessionChannels, inFlight, joinsInFlight, Session.new, Tally.keys, Tally.empty]

section

variable (bounded : before.Bounded)
include bounded

theorem Bounded.removeChannel : (before.removeChannel k).Bounded := by
  refine bounded.of_subset fun key among => ?_
  rw [mem_sessionChannels] at among ⊢
  exact among.imp_left mem_of_mem_erase

section

variable (room : ¬ ((!before.channels.contains k && !before.joinInFlight k &&
  decide (maxChannelsPerSession ≤ before.channels.length + before.inFlight.length)) = true))
include room

/-- A JOIN that is not refused for want of room. -/
theorem Bounded.join (among : after.sessionChannels ⊆ k :: before.sessionChannels) : after.Bounded := by
  by_cases known : k ∈ before.sessionChannels
  · refine bounded.of_subset fun key isKey => ?_
    rcases mem_cons.mp (among isKey) with rfl | held
    · exact known
    · exact held
  · refine (subperm_of_subset after.nodup_sessionChannels among).length_le.trans ?_
    rw [mem_sessionChannels, not_or] at known
    have waiting : k ∉ before.pendingJoins.keys := fun waits => known.2 (Tally.mem_keys.mp waits)
    simpa [joinInFlight, known.1, waiting, sessionChannels, Nat.add_one_le_iff] using room

theorem Bounded.joinSent : (before.joinSent k).Bounded := by
  refine bounded.join room fun key among => ?_
  rw [mem_sessionChannels] at among
  rw [mem_cons, mem_sessionChannels]
  rcases among with listed | waiting
  · exact .inr (.inl listed)
  rw [Session.joinSent, Tally.count_add] at waiting
  split at waiting
  · exact .inl ‹_›
  · exact .inr (.inr waiting)

theorem Bounded.insertChannel : (before.insertChannel k).Bounded := by
  refine bounded.join room fun key among => ?_
  rw [mem_sessionChannels] at among
  rw [mem_cons, mem_sessionChannels]
  rcases among with listed | waiting
  · exact (mem_insert_iff.mp listed).imp_right .inl
  · exact .inr (.inr waiting)

end

end

/-- The answer to a JOIN, which there is if one is in flight. -/
theorem joinAnswered_eq_some {partNow : Bool} :
    before.joinAnswered k = some (partNow, after) ↔ 0 < before.pendingJoins.count k ∧
      partNow = decide (0 < before.partOnJoin.count k) ∧
      after = { before with
        pendingJoins := (before.pendingJoins.takeOne k).2
        partOnJoin := (before.partOnJoin.takeOne k).2 } := by
  simp only [joinAnswered, Tally.takeOne_fst, decide_eq_true_eq, Option.ite_none_right_eq_some,
    Option.some.injEq, Prod.mk.injEq]
  exact and_congr_right fun _ => and_congr eq_comm eq_comm

/-- An answer gives back a place, which the channel joined takes. -/
theorem Bounded.answered {partNow : Bool} (bounded : before.Bounded)
    (answer : before.joinAnswered k = some (partNow, after)) :
    after.Bounded ∧ (after.insertChannel k).Bounded := by
  obtain ⟨waited, -, rfl⟩ := joinAnswered_eq_some.mp answer
  have among (key : ChanKey) (waiting : 0 < (before.pendingJoins.takeOne k).2.count key) :
      0 < before.pendingJoins.count key := by
    rw [Tally.count_takeOne] at waiting
    split at waiting
    · rename_i same
      exact same ▸ waited
    · exact waiting
  constructor
  · refine bounded.of_subset fun key held => ?_
    rw [mem_sessionChannels] at held ⊢
    exact held.imp_right (among key)
  · refine bounded.of_subset fun key held => ?_
    rw [mem_sessionChannels] at held ⊢
    rcases held with listed | waiting
    · rcases mem_insert_iff.mp listed with rfl | listed
      · exact .inr waited
      · exact .inl listed
    · exact .inr (among key waiting)

end Session

namespace State

variable {Shard : Type} {cfg : Config Shard} {s s' t : State Shard} {conn c : ConnId}
variable {key k : ChanKey}

/-- No session waits for too many channels. -/
def Bounds (s : State Shard) : Prop :=
  ∀ conn session, s.sessions conn = some session → session.Bounded

theorem Bounds.of_sessions (bounds : s.Bounds) (same : s'.sessions = s.sessions) : s'.Bounds :=
  fun conn session found => bounds conn session (same ▸ found)

theorem Bounds.updateSession (bounds : s.Bounds) {change : Session → Session}
    (keeps : ∀ session, s.sessions c = some session → (change session).Bounded) :
    (s.updateSession c change).Bounds := by
  intro conn session found
  unfold State.updateSession at found
  dsimp only at found
  rcases eq_or_ne conn c with rfl | apart
  · rw [Function.update_self] at found
    obtain ⟨before, held, rfl⟩ := Option.map_eq_some_iff.mp found
    exact keeps before held
  · rw [Function.update_of_ne apart] at found
    exact bounds conn session found

theorem Bounds.removeSessionChannel (bounds : s.Bounds) : (s.removeSessionChannel c k).Bounds :=
  bounds.updateSession fun session found => (bounds c session found).removeChannel

variable [DecidableEq Shard]

section

variable (bounds : s.Bounds)
include bounds

theorem Bounds.cmdPart (owed : Option ℕ) : (s.cmdPart cfg c k owed).Bounds := by
  unfold State.cmdPart
  split
  · dsimp only
    have parted : (s.partOnOwner c k).2.Bounds :=
      bounds.of_sessions (partOnOwner_spec s c k).1.sessions
    cases (s.partOnOwner c k).1 with
    | parted => exact parted.removeSessionChannel
    | _ => exact parted
  · exact bounds

theorem Bounds.cmdParts (keys : List ChanKey) (owed : Option ℕ) :
    (keys.foldl (fun s key => s.cmdPart cfg c key owed) s).Bounds := by
  induction keys generalizing s with
  | nil => exact bounds
  | cons key keys ih => exact ih (bounds.cmdPart owed)

theorem Bounds.kickOnOwner (victim : ConnId) : (s.kickOnOwner cfg c k victim).Bounds := by
  have removed : (s.removeMember k victim).Bounds :=
    bounds.of_sessions (tables_removeMember (c := victim)).sessions
  rcases kickOnOwner_cases cfg s c k victim with same | ⟨-, kicks⟩
  · rw [same]
    exact bounds
  rw [kicks]
  split
  · exact removed.removeSessionChannel
  · exact removed

/-- A session that hears that it joined has the channel; one that is gone has nothing. -/
theorem Bounds.emitJoinResponse (result : ChannelJoinResult)
    (keeps : ∀ session, s.sessions c = some session → (session.insertChannel k).Bounded) :
    (s.emitJoinResponse cfg c k result).Bounds := by
  cases result with
  | joined =>
    unfold State.emitJoinResponse
    dsimp only
    split
    · split
      · exact bounds.of_sessions (tables_removeMember (c := c)).sessions
      · exact bounds
    · exact bounds.updateSession keeps
  | _ => exact bounds

theorem Bounds.cmdJoin {session : Session} (found : s.sessions c = some session)
    (joinKey : Option Bytes) : (s.cmdJoin cfg c session k joinKey).Bounds := by
  unfold State.cmdJoin
  split
  · exact bounds
  rename_i room
  have own (held : Session) (isHeld : s.sessions c = some held) : held = session :=
    Option.some.inj (isHeld.symm.trans found)
  split
  · dsimp only
    have same := (joinOnOwner_spec cfg s c k joinKey session.zeros).1.sessions
    refine (bounds.of_sessions same).emitJoinResponse _ fun held isHeld => ?_
    rw [own held (same ▸ isHeld)]
    exact (bounds c session found).insertChannel room
  · refine bounds.updateSession fun held isHeld => ?_
    rw [own held isHeld]
    exact (bounds c session found).joinSent room

theorem Bounds.emitJoinResult {result : ChannelJoinResult}
    (answered : s.emitJoinResult cfg c k result = some s') : s'.Bounds := by
  unfold State.emitJoinResult at answered
  cases found : s.sessions c with
  | none =>
    rw [found] at answered
    cases answered
    refine bounds.emitJoinResponse result fun session held => ?_
    rw [found] at held
    cases held
  | some session =>
    rw [found] at answered
    dsimp only at answered
    obtain ⟨⟨partNow, after⟩, answer, rest⟩ := Option.bind_eq_some_iff.mp answered
    obtain ⟨bounded, joined⟩ := (bounds c session found).answered answer
    have told : ((s.updateSession c fun _ => after).emitJoinResponse cfg c k result).Bounds := by
      refine (bounds.updateSession fun _ _ => bounded).emitJoinResponse result fun held isHeld => ?_
      have same : held = after := by
        simp only [State.updateSession, Function.update_self, found, Option.map_some,
          Option.some.injEq] at isHeld
        exact isHeld.symm
      rw [same]
      exact joined
    dsimp only at rest
    split at rest
    · cases rest
      exact told.cmdPart _
    · cases rest
      exact told

end

end State

end E6irc.Membership
