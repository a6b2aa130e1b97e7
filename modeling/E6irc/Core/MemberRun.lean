import E6irc.Core.MemberBounds

/-!
# Runs of the network and of its cells

Every step of the network is, for each session and channel on different shards, a step
of their cell or none (`Inv.step`), so the cells of a network that runs are cells that
can be reached.  Where the two are on one shard, their cell stays settled.
-/

namespace E6irc.Membership

open Base List Option Function Cell Session

attribute [local simp] Cell.of

/-- A session that leaves is taken out where its shard owns the channel, and its QUIT is
sent where another does. -/
def Cell.left (here : Prop) [Decidable here] (x : Cell) : Cell :=
  if here then { x with member := none } else { x with up := x.up ++ [.quit] }

namespace State

variable {Shard : Type} {cfg : Config Shard} {s s' t : State Shard} {conn c : ConnId}
variable {key k : ChanKey}

/-! ## What a session hears -/

variable (cfg) in
theorem cell_insertChannel {session : Session} (found : t.sessions c = some session) :
    (t.updateSession c (·.insertChannel k)).cell cfg c k = { t.cell cfg c k with listed := true } := by
  rw [cell_updateSession, found]
  simp [cell, found, insertChannel]

variable (cfg) in
/-- The session's counts after an answer. -/
theorem cell_answered {session after : Session} {partNow : Bool}
    (found : t.sessions c = some session) (answer : session.joinAnswered k = some (partNow, after)) :
    (t.updateSession c fun _ => after).cell cfg c k =
      { t.cell cfg c k with
        pending := (t.cell cfg c k).pending - 1
        owed := (t.cell cfg c k).owed - 1 } := by
  obtain ⟨-, -, rfl⟩ := joinAnswered_eq_some.mp answer
  rw [cell_updateSession, found]
  simp [cell, found, Tally.count_takeOne]

variable (cfg) in
theorem only_answered {session after : Session} {partNow : Bool}
    (found : t.sessions c = some session) (answer : session.joinAnswered k = some (partNow, after)) :
    Only cfg c k t (t.updateSession c fun _ => after) := by
  obtain ⟨-, -, rfl⟩ := joinAnswered_eq_some.mp answer
  refine only_updateSession fun held isHeld key other => ?_
  cases isHeld.symm.trans found
  exact ⟨rfl, rfl, by simp [Tally.count_takeOne, other], by simp [Tally.count_takeOne, other]⟩

section Ops

variable [DecidableEq Shard]

/-! ## Parting many channels -/

/-- Parting channels concerns their cells, each once. -/
structure Parts (cfg : Config Shard) (c : ConnId) (owed : Option ℕ) (keys : List ChanKey)
    (s s' : State Shard) : Prop where
  nextConn : s'.nextConn = s.nextConn
  routed : Routed cfg s.links → Routed cfg s'.links
  others : ∀ conn key, ¬ (conn = c ∧ key ∈ keys) → s'.cell cfg conn key = s.cell cfg conn key
  remote : ∀ key ∈ keys, cfg.home c ≠ cfg.channelOwner key → s'.cell cfg c key =
    { s.cell cfg c key with up := (s.cell cfg c key).up ++ [.part owed] }
  here : ∀ key ∈ keys, cfg.home c = cfg.channelOwner key → (s.cell cfg c key).Agrees →
    (s'.cell cfg c key).Settled

theorem parts_cmdParts {keys : List ChanKey} (once : keys.Nodup) (owed : Option ℕ) :
    Parts cfg c owed keys s (keys.foldl (fun s key => s.cmdPart cfg c key owed) s) := by
  induction keys generalizing s with
  | nil => exact ⟨rfl, id, fun _ _ _ => rfl, nofun, nofun⟩
  | cons k keys ih =>
    obtain ⟨first, once⟩ := nodup_cons.mp once
    have only : Only cfg c k s (s.cmdPart cfg c k owed) := only_cmdPart owed
    have rest := @ih (s.cmdPart cfg c k owed) once
    have own : ∀ conn, (keys.foldl (fun s key => s.cmdPart cfg c key owed)
        (s.cmdPart cfg c k owed)).cell cfg conn k = (s.cmdPart cfg c k owed).cell cfg conn k :=
      fun conn => rest.others conn k fun again => first again.2
    have other {key : ChanKey} (among : key ∈ keys) :
        (s.cmdPart cfg c k owed).cell cfg c key = s.cell cfg c key := by
      refine only.cells c key fun same => first ?_
      exact same.2 ▸ among
    constructor
    case nextConn => exact rest.nextConn.trans only.nextConn
    case routed => exact rest.routed ∘ only.routed
    case others =>
      intro conn key apart
      rw [foldl_cons, rest.others conn key fun among =>
        apart ⟨among.1, mem_cons_of_mem _ among.2⟩]
      exact only.cells conn key fun same => apart ⟨same.1, same.2 ▸ mem_cons_self⟩
    case remote =>
      intro key among remote
      rcases mem_cons.mp among with rfl | later
      · rw [foldl_cons, own]
        exact cell_cmdPart remote owed
      · rw [foldl_cons, rest.remote key later remote, other later]
    case here =>
      intro key among here agrees
      rcases mem_cons.mp among with rfl | later
      · rw [foldl_cons, own]
        exact settled_cmdPart here owed agrees
      · exact rest.here key later here (other later ▸ agrees)

/-! ## Leaving every channel -/

/-- What the end of a session does on one shard. -/
def quitShard (cfg : Config Shard) (c : ConnId) (keys : List ChanKey) (s : State Shard)
    (shard : Shard) : State Shard :=
  let here := keys.filter fun key => cfg.channelOwner key = shard
  if shard = cfg.home c then s.quitChannelMember c here
  else s.route cfg (.channelQuit c shard here)

/-- The end of a session concerns its cells with the channels named, each once. -/
structure Quits (cfg : Config Shard) (c : ConnId) (named : ChanKey → Prop) (s s' : State Shard) :
    Prop where
  sessions : s'.sessions = s.sessions
  nextConn : s'.nextConn = s.nextConn
  routed : Routed cfg s.links → Routed cfg s'.links
  others : ∀ conn key, ¬ (conn = c ∧ named key) → s'.cell cfg conn key = s.cell cfg conn key
  left : ∀ key, named key →
    s'.cell cfg c key = (s.cell cfg c key).left (cfg.channelOwner key = cfg.home c)

theorem quits_quitShard (keys : List ChanKey) (shard : Shard) :
    Quits cfg c (fun key => key ∈ keys ∧ cfg.channelOwner key = shard) s
      (s.quitShard cfg c keys shard) := by
  have mem_here {key : ChanKey} :
      key ∈ keys.filter (fun key => cfg.channelOwner key = shard) ↔
        key ∈ keys ∧ cfg.channelOwner key = shard := by
    simp
  unfold quitShard
  dsimp only
  generalize keys.filter (fun key => cfg.channelOwner key = shard) = here at mem_here
  split
  · rename_i atHome
    obtain ⟨sessions, links, next, eras⟩ := quitChannelMember_spec here (s := s) (c := c)
    have cells (conn : ConnId) (key : ChanKey) : (s.quitChannelMember c here).cell cfg conn key =
        { s.cell cfg conn key with
          member := if conn = c ∧ key ∈ here then none else s.era conn key } := by
      rw [cell, ups, downs, sessions, links, eras]
      rfl
    refine ⟨sessions, next, fun routed => links ▸ routed, fun conn key apart => ?_, ?_⟩
    · rw [cells, if_neg fun among => apart ⟨among.1, mem_here.mp among.2⟩]
      rfl
    · intro key named
      rw [cells, if_pos ⟨rfl, mem_here.mpr named⟩, left, if_pos (named.2.trans atHome)]
  · rename_i elsewhere
    have owned : (Input.channelQuit c shard here).Owned cfg := fun key among => (mem_here.mp among).2
    refine ⟨rfl, rfl, fun routed => routed.route (Ne.symm elsewhere) owned,
      fun conn key apart => ?_, fun key named => ?_⟩
    · have silent : (Input.channelQuit c shard here).up conn key = none :=
        if_neg fun same => apart ⟨same.1.symm, mem_here.mp same.2⟩
      rw [cell_route owned, silent]
      simp [Input.down, cell]
    · have quits : (Input.channelQuit c shard here).up c key = some .quit :=
        if_pos ⟨rfl, mem_here.mpr named⟩
      rw [cell_route owned, quits, left, if_neg (named.2.trans_ne elsewhere)]
      simp [Input.down, cell]

theorem Quits.trans {named named' : ChanKey → Prop} (first : Quits cfg c named s t)
    (second : Quits cfg c named' t s') (apart : ∀ key, named key → ¬ named' key) :
    Quits cfg c (fun key => named key ∨ named' key) s s' where
  sessions := second.sessions.trans first.sessions
  nextConn := second.nextConn.trans first.nextConn
  routed := second.routed ∘ first.routed
  others conn key neither := by
    rw [second.others conn key fun among => neither ⟨among.1, .inr among.2⟩,
      first.others conn key fun among => neither ⟨among.1, .inl among.2⟩]
  left key either := by
    rcases either with here | later
    · rw [second.others c key fun again => apart key here again.2, first.left key here]
    · rw [second.left key later, first.others c key fun again => apart key again.2 later]

theorem quits_quitShards (keys : List ChanKey) {shards : List Shard} (once : shards.Nodup) :
    Quits cfg c (fun key => key ∈ keys ∧ cfg.channelOwner key ∈ shards) s
      (shards.foldl (fun s shard => s.quitShard cfg c keys shard) s) := by
  induction shards generalizing s with
  | nil => exact ⟨rfl, rfl, id, fun _ _ _ => rfl, fun key named => by simp at named⟩
  | cons shard shards ih =>
    obtain ⟨first, once⟩ := nodup_cons.mp once
    have here : Quits cfg c _ s (s.quitShard cfg c keys shard) := quits_quitShard keys shard
    have both := here.trans (ih once) fun key here later => first (here.2 ▸ later.2)
    have named : (fun key => key ∈ keys ∧ cfg.channelOwner key = shard ∨
        key ∈ keys ∧ cfg.channelOwner key ∈ shards) =
          fun key => key ∈ keys ∧ cfg.channelOwner key ∈ shard :: shards := by
      funext key
      rw [mem_cons, and_or_left]
    rw [← named]
    exact both

theorem quits_close (session : Session) :
    Quits cfg c (· ∈ session.sessionChannels) s
      ((session.sessionChannels.map cfg.channelOwner).dedup.foldl
        (fun s shard => s.quitShard cfg c session.sessionChannels shard) s) := by
  have named : (· ∈ session.sessionChannels) = fun key => key ∈ session.sessionChannels ∧
      cfg.channelOwner key ∈ (session.sessionChannels.map cfg.channelOwner).dedup := by
    funext key
    rw [mem_dedup, eq_iff_iff]
    exact ⟨fun among => ⟨among, mem_map_of_mem among⟩, And.left⟩
  rw [named]
  exact quits_quitShards _ (nodup_dedup _)

/-! ## What a delivery does to its cell -/

section Deliver

variable {src dst : Shard} {input : Input Shard} {rest : Links Shard (Input Shard)}
variable {ok : Cell → Prop}

theorem cell_receive (routed : Routed cfg s.links)
    (received : s.links.receive src dst = some (input, rest)) :
    s.cell cfg conn key =
      { { s with links := rest }.cell cfg conn key with
        up := (input.up conn key).toList ++ ({ s with links := rest }.cell cfg conn key).up
        down := (input.down conn key).toList ++ ({ s with links := rest }.cell cfg conn key).down } := by
  rw [cell, ups_receive routed received, downs_receive routed received]
  rfl

theorem only_receive (routed : Routed cfg s.links)
    (received : s.links.receive src dst = some (input, rest))
    (subject : input.subject = some (c, k)) : Only cfg c k s { s with links := rest } := by
  refine ⟨fun conn key other => ?_, rfl, fun routed => routed.receive received⟩
  obtain ⟨up, down⟩ := Input.silent_elsewhere subject other
  rw [cell_receive routed received, up, down]
  rfl

/-- The owner answers a JOIN. -/
theorem step_channelJoin (joinKey : Option Bytes) (era : ℕ) :
    Step ok { t.cell cfg c k with up := .join era :: (t.cell cfg c k).up }
      (((t.joinOnOwner cfg c k joinKey era).2.route cfg
        (.channelJoinResult c k (t.joinOnOwner cfg c k joinKey era).1 era)).cell cfg c k) := by
  obtain ⟨tables, member⟩ := joinOnOwner_spec cfg t c k joinKey era
  rw [cell_route_subject rfl, tables.cell]
  rcases member with ⟨before, was, result, now⟩ | ⟨was, result, now⟩ | ⟨failure, was, result, now⟩
  · rw [result, now]
    have step : Step ok _ _ := .know (t.cell cfg c k) era before was
    simpa [Input.up, Input.down, cell] using step
  · rw [result, now]
    have step : Step ok _ _ := .letIn (t.cell cfg c k) era was
    simpa [Input.up, Input.down, cell] using step
  · rw [result, now]
    have step : Step ok _ _ := .refuse (t.cell cfg c k) era was
    simpa [Input.up, Input.down, cell, was] using step

/-- The owner takes a member out and says so. -/
theorem step_channelPart (owed : Option ℕ) :
    Step ok { t.cell cfg c k with up := .part owed :: (t.cell cfg c k).up }
      (((t.partOnOwner c k).2.route cfg
        (.channelPartResult c k (t.partOnOwner c k).1)).cell cfg c k) := by
  obtain ⟨tables, gone, parts⟩ := partOnOwner_spec t c k
  rw [cell_route_subject rfl, tables.cell, gone]
  have step : Step ok _ _ := .remove (t.cell cfg c k) owed
  have member : (t.cell cfg c k).member = t.era c k := rfl
  by_cases parted : (t.partOnOwner c k).1 = .parted
  · rw [member, parts.mp parted] at step
    simpa [Input.up, Input.down, cell, parted] using step
  · rw [member, Bool.eq_false_iff.mpr fun isMember => parted (parts.mpr isMember)] at step
    simpa [Input.up, Input.down, cell, parted] using step

theorem only_emitJoinResult {result : ChannelJoinResult}
    (answered : t.emitJoinResult cfg c k result = some s') : Only cfg c k t s' := by
  unfold State.emitJoinResult at answered
  cases found : t.sessions c with
  | none =>
    rw [found] at answered
    cases answered
    exact only_emitJoinResponse result
  | some session =>
    rw [found] at answered
    obtain ⟨⟨partNow, after⟩, answer, done⟩ := bind_eq_some_iff.mp answered
    have told := (only_answered cfg found answer).trans (only_emitJoinResponse result)
    dsimp only at done
    split at done
    · cases done
      exact told.trans (only_cmdPart _)
    · cases done
      exact told

/-- A session, or what is left of one, hears the answer to a JOIN. -/
theorem step_joinResult (remote : cfg.home c ≠ cfg.channelOwner k) {result : ChannelJoinResult}
    (answered : t.emitJoinResult cfg c k result = some s') (era : ℕ) :
    Step ok
      { t.cell cfg c k with
        down := (if result = .joined then .joined era else .unchanged era) :: (t.cell cfg c k).down }
      (s'.cell cfg c k) := by
  unfold State.emitJoinResult at answered
  cases found : t.sessions c with
  | none =>
    have dead : (t.cell cfg c k).alive = false := by
      rw [cell, found]
      rfl
    rw [found] at answered
    cases answered
    cases result with
    | joined =>
      rw [emitJoinResponse, found]
      dsimp only
      rw [if_neg remote.symm, cell_route_subject rfl, if_pos rfl]
      have step : Step ok _ _ := .vanish (t.cell cfg c k) era dead
      simpa [Input.up, Input.down] using step
    | alreadyMember | rejected => exact .ignore (t.cell cfg c k) era dead
  | some session =>
    have alive : (t.cell cfg c k).alive = true := by
      rw [cell, found]
      rfl
    rw [found] at answered
    obtain ⟨⟨partNow, after⟩, answer, done⟩ := bind_eq_some_iff.mp answered
    have counts := cell_answered cfg found answer
    have owes : partNow = decide (0 < (t.cell cfg c k).owed) := by
      rw [cell, found]
      exact (joinAnswered_eq_some.mp answer).2.1
    have zeros : (t.cell cfg c k).zeros = session.zeros := by
      rw [cell, found]
      rfl
    have now : (t.updateSession c fun _ => after).sessions c = some after := by
      simp [updateSession, found]
    dsimp only at done
    cases result with
    | joined =>
      have listed : ((t.updateSession c fun _ => after).emitJoinResponse cfg c k .joined).cell cfg
          c k = { (t.updateSession c fun _ => after).cell cfg c k with listed := true } := by
        rw [emitJoinResponse, now]
        exact cell_insertChannel cfg now
      have step : Step ok _ _ := .hearJoined (t.cell cfg c k) era alive
      rw [if_pos rfl]
      rw [owes] at done
      by_cases owed : 0 < (t.cell cfg c k).owed
      · simp only [owed, decide_true, Bool.true_and, beq_self_eq_true, if_true, some.injEq] at done
        rw [← done, cell_cmdPart remote, listed, counts, ← zeros]
        simpa [owed] using step
      · simp only [owed, decide_false, Bool.false_and, Bool.false_eq_true, if_false,
          some.injEq] at done
        rw [← done, listed, counts]
        simpa [owed] using step
    | alreadyMember | rejected =>
      have same : s' = t.updateSession c fun _ => after := by
        simpa [emitJoinResponse] using done.symm
      rw [same, counts]
      exact .hearUnchanged (t.cell cfg c k) era alive

end Deliver

end Ops

/-! ## The invariant of a run -/

/-- What holds of the network after every event.  `ok` is what cells have met where a
JOIN was sent to another shard. -/
structure Inv (ok : Cell → Prop) (cfg : Config Shard) (s : State Shard) : Prop where
  routed : Routed cfg s.links
  bounds : s.Bounds
  unborn : ∀ conn key, s.nextConn ≤ conn → s.cell cfg conn key = .unborn
  settled : ∀ conn key, cfg.home conn = cfg.channelOwner key → (s.cell cfg conn key).Settled
  reach : ∀ conn key, cfg.home conn ≠ cfg.channelOwner key → conn < s.nextConn →
    Reach ok (s.cell cfg conn key)

section Inv

variable {ok : Cell → Prop}

theorem inv_init : Inv ok cfg (.init : State Shard) where
  routed _ _ _ queued := by cases queued
  bounds _ _ found := by cases found
  unborn _ _ _ := rfl
  settled _ _ _ := ⟨⟨rfl, rfl, rfl⟩, nofun⟩
  reach _ _ _ born := by cases born

section

variable (inv : Inv ok cfg s)
include inv

/-- A cell that is not that of a session still to come is that of one that has come. -/
theorem Inv.born (some_cell : s.cell cfg c k ≠ .unborn) : c < s.nextConn :=
  Nat.lt_of_not_le fun unborn => some_cell (inv.unborn c k unborn)

theorem Inv.born_of_session {session : Session}
    (found : s.sessions c = some session) : c < s.nextConn := by
  refine inv.born (k := []) fun unborn => ?_
  have alive : (s.cell cfg c []).alive = true := by
    rw [cell, found]
    rfl
  rw [unborn] at alive
  cases alive

/-- Every cell is as it was, or is one of a session that has come and is settled or
reached. -/
theorem Inv.of_cells (routed : Routed cfg s'.links) (bounds : s'.Bounds)
    (nextConn : s'.nextConn = s.nextConn)
    (cells : ∀ conn key, s'.cell cfg conn key = s.cell cfg conn key ∨ conn < s.nextConn ∧
      (cfg.home conn = cfg.channelOwner key → (s'.cell cfg conn key).Settled) ∧
      (cfg.home conn ≠ cfg.channelOwner key → Reach ok (s'.cell cfg conn key))) :
    Inv ok cfg s' where
  routed := routed
  bounds := bounds
  unborn conn key later := by
    rw [nextConn] at later
    rcases cells conn key with same | ⟨born, -⟩
    · rw [same, inv.unborn conn key later]
    · exact absurd born (Nat.not_lt.mpr later)
  settled conn key here := by
    rcases cells conn key with same | ⟨-, settled, -⟩
    · exact same ▸ inv.settled conn key here
    · exact settled here
  reach conn key remote before := by
    rcases cells conn key with same | ⟨-, -, reach⟩
    · exact same ▸ inv.reach conn key remote (nextConn ▸ before)
    · exact reach remote

theorem Inv.only (only : Only cfg c k s s') (bounds : s'.Bounds) (born : c < s.nextConn)
    (settled : cfg.home c = cfg.channelOwner k → (s'.cell cfg c k).Settled)
    (reach : cfg.home c ≠ cfg.channelOwner k → Reach ok (s'.cell cfg c k)) :
    Inv ok cfg s' := by
  refine inv.of_cells (only.routed inv.routed) bounds only.nextConn fun conn key => ?_
  by_cases same : conn = c ∧ key = k
  · obtain ⟨rfl, rfl⟩ := same
    exact .inr ⟨born, settled, reach⟩
  · exact .inl (only.cells conn key same)

/-- Nothing changes that a cell shows. -/
theorem Inv.same (cells : ∀ conn key, s'.cell cfg conn key = s.cell cfg conn key)
    (nextConn : s'.nextConn = s.nextConn) (routed : Routed cfg s'.links) (bounds : s'.Bounds) :
    Inv ok cfg s' :=
  inv.of_cells routed bounds nextConn fun conn key => .inl (cells conn key)

theorem Inv.connect : Inv ok cfg { s with
      sessions := Function.update s.sessions s.nextConn (some .new)
      nextConn := s.nextConn + 1 } := by
  have other {conn : ConnId} (key : ChanKey) (apart : conn ≠ s.nextConn) :
      { s with
        sessions := Function.update s.sessions s.nextConn (some .new)
        nextConn := s.nextConn + 1 : State Shard }.cell cfg conn key = s.cell cfg conn key := by
    rw [cell]
    dsimp only
    rw [update_of_ne apart]
    rfl
  have new (key : ChanKey) :
      { s with
        sessions := Function.update s.sessions s.nextConn (some .new)
        nextConn := s.nextConn + 1 : State Shard }.cell cfg s.nextConn key = .born := by
    have unborn := inv.unborn s.nextConn key (Nat.le_refl _)
    have member : s.era s.nextConn key = none := congrArg member unborn
    have up : s.ups cfg s.nextConn key = [] := congrArg up unborn
    have down : s.downs cfg s.nextConn key = [] := congrArg down unborn
    change of (Function.update s.sessions s.nextConn (some .new) s.nextConn) key
      (s.era s.nextConn key) (s.ups cfg s.nextConn key) (s.downs cfg s.nextConn key) = _
    rw [update_self, member, up, down]
    rfl
  refine ⟨inv.routed, fun conn session found => ?_, fun conn key later => ?_,
    fun conn key here => ?_, fun conn key remote before => ?_⟩
  · dsimp only at found
    rcases eq_or_ne conn s.nextConn with rfl | apart
    · rw [update_self] at found
      cases found
      exact bounded_new
    · rw [update_of_ne apart] at found
      exact inv.bounds conn session found
  · rw [other key (Nat.ne_of_gt later)]
    exact inv.unborn conn key (Nat.le_of_succ_le later)
  · rcases eq_or_ne conn s.nextConn with rfl | apart
    · rw [new]
      exact ⟨⟨rfl, rfl, rfl⟩, fun _ held => by cases held⟩
    · rw [other key apart]
      exact inv.settled conn key here
  · rcases eq_or_ne conn s.nextConn with rfl | apart
    · rw [new]
      exact .refl
    · rw [other key apart]
      exact inv.reach conn key remote (Nat.lt_of_le_of_ne (Nat.le_of_lt_succ before) apart)

theorem Inv.mode {chan : Channel} (found : s.channels k = some chan)
    (modes : ChanModes) (invited ops : List ConnId) :
    Inv ok cfg (s.setChannel k (some (chan.setMode modes invited ops))) := by
  have eras (conn : ConnId) :
      ((chan.setMode modes invited ops).members.lookup conn).map Member.era = s.era conn k := by
    rw [era_of_found found, Channel.setMode, lookup_mapValues, Option.map_map]
    rfl
  refine inv.same (fun conn key => ?_) rfl inv.routed inv.bounds
  have same : (s.setChannel k (some (chan.setMode modes invited ops))).era conn key =
      s.era conn key := by
    rw [era_setChannel]
    split
    · rename_i isKey
      rw [bind_some, eras, isKey]
    · rfl
  rw [cell, same]
  rfl

end

variable [DecidableEq Shard]

section

variable (inv : Inv ok cfg s)
include inv

theorem Inv.cmdJoin {session : Session} (found : s.sessions c = some session)
    (joinKey : Option Bytes) (meets : cfg.home c ≠ cfg.channelOwner k → ok (s.cell cfg c k)) :
    Inv ok cfg (s.cmdJoin cfg c session k joinKey) := by
  have bounds : (s.cmdJoin cfg c session k joinKey).Bounds := inv.bounds.cmdJoin found joinKey
  have born := inv.born_of_session found
  unfold State.cmdJoin at bounds ⊢
  split
  · exact inv
  rename_i room
  rw [if_neg room] at bounds
  split
  · rename_i here
    rw [if_pos here] at bounds
    have tables := (joinOnOwner_spec cfg s c k joinKey session.zeros).1
    refine inv.only (tables.only.trans (only_emitJoinResponse _)) bounds born (fun here => ?_) ?_
    · exact settled_join (inv.settled c k here) found joinKey
    · exact fun remote => absurd here.symm remote
  · rename_i elsewhere
    rw [if_neg elsewhere] at bounds
    have sent : Only cfg c k s (s.updateSession c (·.joinSent k)) :=
      only_updateSession fun held _ _ other =>
        ⟨rfl, rfl, by simp [joinSent, Tally.count_add, other], rfl⟩
    refine inv.only (sent.trans (only_route rfl (Ne.symm elsewhere))) bounds born
      (fun here => absurd here.symm elsewhere) fun remote => ?_
    have step : Step ok _ _ := .join (s.cell cfg c k) (by rw [cell, found]; rfl) (meets remote)
    refine (inv.reach c k remote born).tail ?_
    rw [cell_route_subject rfl, cell_updateSession, found]
    simpa [Input.up, Input.down, cell, found, joinSent, Tally.count_add] using step

theorem Inv.cmdPart {session : Session} (found : s.sessions c = some session) :
    Inv ok cfg (s.cmdPart cfg c k none) := by
  have born := inv.born_of_session found
  refine inv.only (only_cmdPart none) (inv.bounds.cmdPart none) born (fun here => ?_) fun remote => ?_
  · exact settled_cmdPart here none (inv.settled c k here).toAgrees
  rw [cell_cmdPart remote]
  refine (inv.reach c k remote born).tail (.part _ ?_)
  rw [cell, found]
  rfl

/-- A KICK of a member is a step of the member's cell. -/
theorem Inv.kickOnOwner (victim : ConnId) : Inv ok cfg (s.kickOnOwner cfg c k victim) := by
  rcases kickOnOwner_cases cfg s c k victim with same | ⟨member, kicks⟩
  · rw [same]
    exact inv
  have removed : (s.removeMember k victim).cell cfg victim k =
      { s.cell cfg victim k with member := none } := by
    rw [(tables_removeMember (c := victim)).cell, era_removeMember]
    rfl
  have born : victim < s.nextConn := by
    refine inv.born (k := k) fun unborn => ?_
    have none_yet : s.era victim k = none := congrArg Cell.member unborn
    rw [none_yet] at member
    cases member
  refine inv.only (only_kickOnOwner victim) (inv.bounds.kickOnOwner victim) born (fun here => ?_)
    fun remote => ?_
  · have settled := inv.settled victim k here
    rw [kicks, if_pos here.symm, cell_removeSessionChannel, removed]
    exact ⟨⟨rfl, settled.pending, settled.owed⟩, nofun⟩
  · refine (inv.reach victim k remote born).tail ?_
    rw [kicks, if_neg remote.symm, cell_route_subject rfl, removed]
    have step : Step ok _ _ := .kick (s.cell cfg victim k) member
    simpa [Input.up, Input.down] using step

theorem Inv.kick (victim : ConnId) (remote : cfg.home c ≠ cfg.channelOwner k) :
    Inv ok cfg (s.route cfg (.channelKick c k victim)) := by
  have owned : (Input.channelKick c k victim : Input Shard).Owned cfg := trivial
  refine inv.same (fun conn key => ?_) rfl (inv.routed.route remote owned) inv.bounds
  rw [cell_route owned]
  simp [Input.up, Input.down, cell]

/-- A `JOIN 0` is a step of every cell of its session. -/
theorem Inv.cmdJoinZero {session : Session}
    (found : s.sessions c = some session) : Inv ok cfg (s.cmdJoinZero cfg c session) := by
  have born := inv.born_of_session found
  have bounded := inv.bounds c session found
  have all : session.partJoinsInFlight.channels.take partTargmax = session.channels :=
    take_of_length_le bounded.channels
  have begun : (s.updateSession c fun _ => session.partJoinsInFlight).Bounds :=
    inv.bounds.updateSession fun _ _ => bounded
  have zeroed (key : ChanKey) :
      (s.updateSession c fun _ => session.partJoinsInFlight).cell cfg c key =
        { s.cell cfg c key with
          zeros := (s.cell cfg c key).zeros + 1
          owed := (s.cell cfg c key).pending } := by
    rw [cell_updateSession, found]
    simp [cell, found, partJoinsInFlight]
  have listed (key : ChanKey) : (s.cell cfg c key).listed = decide (key ∈ session.channels) := by
    rw [cell, found]
    simp
  have parts : Parts cfg c (some (session.zeros + 1)) session.channels
      (s.updateSession c fun _ => session.partJoinsInFlight) (s.cmdJoinZero cfg c session) := by
    rw [State.cmdJoinZero, all]
    exact parts_cmdParts session.nodup _
  refine inv.of_cells (parts.routed inv.routed) (begun.cmdParts _ _) parts.nextConn fun conn key => ?_
  rcases eq_or_ne conn c with rfl | apart
  · refine .inr ⟨born, fun here => ?_, fun remote => (inv.reach conn key remote born).tail ?_⟩
    · have settled := inv.settled conn key here
      by_cases among : key ∈ session.channels
      · refine parts.here key among here ?_
        rw [zeroed]
        exact ⟨settled.agree, settled.pending, settled.pending⟩
      · rw [parts.others conn key fun both => among both.2, zeroed]
        have absent : (s.cell cfg conn key).member = none := by
          have agree := settled.agree
          rw [listed, decide_eq_false among] at agree
          simpa using agree.symm
        exact ⟨⟨settled.agree, settled.pending, settled.pending⟩, by simp [absent]⟩
    · have zeros : (s.cell cfg conn key).zeros = session.zeros := by
        rw [cell, found]
        rfl
      have step : Step ok _ _ := .joinZero (s.cell cfg conn key) (by rw [cell, found]; rfl)
      by_cases among : key ∈ session.channels
      · rw [parts.remote key among remote, zeroed]
        simpa [listed, among, zeros] using step
      · rw [parts.others conn key fun both => among both.2, zeroed]
        simpa [listed, among, zeros] using step
  · left
    rw [parts.others conn key fun among => apart among.1]
    exact cell_updateSession_of_ne _ apart

/-- The end of a session is a step of every cell of it. -/
theorem Inv.close {session : Session} (found : s.sessions c = some session) :
    Inv ok cfg (s.close cfg c session) := by
  have born := inv.born_of_session found
  have quits : Quits cfg c _ s _ := quits_close session
  generalize quit : (session.sessionChannels.map cfg.channelOwner).dedup.foldl
    (fun s shard => s.quitShard cfg c session.sessionChannels shard) s = t at quits
  have closed : s.close cfg c session = { t with sessions := Function.update t.sessions c none } := by
    rw [← quit]
    rfl
  have own (key : ChanKey) : (s.close cfg c session).cell cfg c key =
      { Cell.unborn with
        member := (t.cell cfg c key).member
        up := (t.cell cfg c key).up
        down := (t.cell cfg c key).down } := by
    rw [closed, cell]
    dsimp only
    rw [update_self]
    rfl
  have named (key : ChanKey) : key ∈ session.sessionChannels ↔
      (s.cell cfg c key).listed = true ∨ 0 < (s.cell cfg c key).pending := by
    rw [mem_sessionChannels, cell, found]
    simp
  refine inv.of_cells (closed ▸ quits.routed inv.routed) (fun conn held isHeld => ?_)
    (closed ▸ quits.nextConn) fun conn key => ?_
  · rw [closed] at isHeld
    dsimp only at isHeld
    rcases eq_or_ne conn c with rfl | apart
    · rw [update_self] at isHeld
      cases isHeld
    · rw [update_of_ne apart, quits.sessions] at isHeld
      exact inv.bounds conn held isHeld
  rcases eq_or_ne conn c with rfl | apart
  · refine .inr ⟨born, fun here => ?_, fun remote => (inv.reach conn key remote born).tail ?_⟩
    · have settled := inv.settled conn key here
      have absent : (t.cell cfg conn key).member = none := by
        by_cases among : key ∈ session.sessionChannels
        · rw [quits.left key among, left, if_pos here.symm]
        · rw [quits.others conn key fun both => among both.2]
          have unlisted := Bool.eq_false_iff.mpr fun listed => among ((named key).mpr (.inl listed))
          simpa [unlisted] using settled.agree.symm
      rw [own, absent]
      exact ⟨⟨rfl, rfl, rfl⟩, fun _ held => by cases held⟩
    · have step : Step ok _ _ := .close (s.cell cfg conn key) (by rw [cell, found]; rfl)
      rw [own]
      by_cases among : key ∈ session.sessionChannels
      · rw [quits.left key among, left, if_neg remote.symm]
        simpa [(named key).mp among] using step
      rw [quits.others conn key fun both => among both.2]
      rw [named, ← decide_eq_true_iff (p := 0 < (s.cell cfg conn key).pending), ← Bool.or_eq_true,
        Bool.not_eq_true] at among
      simpa [among] using step
  · left
    rw [← quits.others conn key fun same => apart same.1, closed, cell]
    dsimp only
    rw [update_of_ne apart]
    rfl

end

/-! ## Deliveries -/

section Deliver

variable {src dst : Shard} {input : Input Shard} {rest : Links Shard (Input Shard)}

/-- An input about one session and one channel is a step of their cell. -/
theorem Inv.hear (inv : Inv ok cfg s) (received : s.links.receive src dst = some (input, rest))
    (subject : input.subject = some (c, k)) (only : Only cfg c k { s with links := rest } s')
    (bounds : s'.Bounds) (step : Step ok { { s with links := rest }.cell cfg c k with
      up := (input.up c k).toList ++ ({ s with links := rest }.cell cfg c k).up
      down := (input.down c k).toList ++ ({ s with links := rest }.cell cfg c k).down }
      (s'.cell cfg c k)) : Inv ok cfg s' := by
  rw [← cell_receive inv.routed received] at step
  obtain ⟨rfl, rfl, apart, -⟩ := inv.routed src dst input (Links.head_mem received)
  have remote := Input.remote_of_subject subject apart
  have born := inv.born fun unborn => (unborn ▸ step).not_unborn
  refine inv.only ((only_receive inv.routed received subject).trans only) bounds born
    (fun here => absurd here remote) fun _ => ?_
  exact (inv.reach c k remote born).tail step

/-- An input that no cell shows. -/
theorem Inv.hearNothing (inv : Inv ok cfg s)
    (received : s.links.receive src dst = some (input, rest))
    (silent : ∀ conn key, input.up conn key = none ∧ input.down conn key = none) :
    Inv ok cfg { s with links := rest } := by
  refine inv.same (fun conn key => ?_) rfl (inv.routed.receive received) inv.bounds
  obtain ⟨up, down⟩ := silent conn key
  rw [cell_receive inv.routed received, up, down]
  rfl

/-- A QUIT is a step of the cell of each channel it names. -/
theorem Inv.hearQuit (inv : Inv ok cfg s) {shard : Shard} {keys : List ChanKey}
    (received : s.links.receive src dst = some (.channelQuit c shard keys, rest)) :
    Inv ok cfg ({ s with links := rest }.quitChannelMember c keys) := by
  obtain ⟨rfl, rfl, apart, owned⟩ := inv.routed src dst _ (Links.head_mem received)
  have owned : ∀ key ∈ keys, cfg.channelOwner key = shard := owned
  have apart : cfg.home c ≠ shard := apart
  obtain ⟨sessions, links, next, eras⟩ :=
    quitChannelMember_spec keys (s := { s with links := rest }) (c := c)
  have cells (conn : ConnId) (key : ChanKey) :
      ({ s with links := rest }.quitChannelMember c keys).cell cfg conn key =
        { { s with links := rest }.cell cfg conn key with
          member := if conn = c ∧ key ∈ keys then none
            else ({ s with links := rest }.cell cfg conn key).member } := by
    rw [cell, ups, downs, sessions, links, eras]
    rfl
  have before (conn : ConnId) (key : ChanKey) : s.cell cfg conn key =
      { { s with links := rest }.cell cfg conn key with
        up := (if c = conn ∧ key ∈ keys then some Up.quit else none).toList ++
          ({ s with links := rest }.cell cfg conn key).up } :=
    cell_receive inv.routed received
  have named {key : ChanKey} (among : key ∈ keys) : Step ok (s.cell cfg c key)
      (({ s with links := rest }.quitChannelMember c keys).cell cfg c key) := by
    rw [cells, before, if_pos ⟨rfl, among⟩, if_pos ⟨rfl, among⟩]
    exact .leave _ .quit (.inl rfl)
  refine inv.of_cells (links ▸ inv.routed.receive received) (inv.bounds.of_sessions sessions) next
    fun conn key => ?_
  by_cases among : conn = c ∧ key ∈ keys
  · obtain ⟨rfl, among⟩ := among
    have born := inv.born fun unborn => (unborn ▸ named among).not_unborn
    exact .inr ⟨born, fun here => absurd (here.trans (owned key among)) apart,
      fun remote => (inv.reach conn key remote born).tail (named among)⟩
  · left
    rw [cells, before, if_neg among, if_neg fun same => among ⟨same.1.symm, same.2⟩]
    rfl

theorem Inv.handle (inv : Inv ok cfg s) (received : s.links.receive src dst = some (input, rest))
    (handled : State.handle cfg { s with links := rest } input = some s') : Inv ok cfg s' := by
  have bounds : { s with links := rest }.Bounds := inv.bounds
  obtain ⟨isSrc, isDst, apart, -⟩ := inv.routed src dst input (Links.head_mem received)
  rw [← isSrc, ← isDst] at apart
  cases input with
  | channelJoin c k joinKey era =>
    cases handled
    have tables := (joinOnOwner_spec cfg { s with links := rest } c k joinKey era).1
    refine inv.hear received rfl (tables.only.trans (only_route rfl (Ne.symm apart)))
      (bounds.of_sessions tables.sessions) ?_
    simpa [Input.up, Input.down] using step_channelJoin (t := { s with links := rest }) joinKey era
  | channelJoinResult c k result era =>
    have step : Step ok _ _ := step_joinResult (Ne.symm apart) handled era
    refine inv.hear received rfl (only_emitJoinResult handled) (bounds.emitJoinResult handled) ?_
    simpa [Input.up, Input.down] using step
  | channelPart c k owed =>
    cases handled
    have tables := (partOnOwner_spec { s with links := rest } c k).1
    refine inv.hear received rfl (tables.only.trans (only_route rfl (Ne.symm apart)))
      (bounds.of_sessions tables.sessions) ?_
    simpa [Input.up, Input.down] using step_channelPart (t := { s with links := rest }) owed
  | channelPartResult c k result =>
    cases handled
    cases result with
    | parted =>
      refine inv.hear received rfl only_removeSessionChannel bounds.removeSessionChannel ?_
      have step : Step ok _ _ :=
        .hearNoMore ({ s with links := rest }.cell cfg c k) .parted (.inl rfl)
      rw [emitPartResponse, cell_removeSessionChannel]
      simpa [Input.up, Input.down] using step
    | noSuchChannel | hidden | notOnChannel =>
      exact inv.hearNothing received fun _ _ => ⟨rfl, if_neg fun said => by cases said.2.2⟩
  | channelKick c k victim =>
    cases handled
    exact (inv.hearNothing received fun _ _ => ⟨rfl, rfl⟩).kickOnOwner victim
  | sessionChannelRemoved c k =>
    cases handled
    refine inv.hear received rfl only_removeSessionChannel bounds.removeSessionChannel ?_
    have step : Step ok _ _ :=
      .hearNoMore ({ s with links := rest }.cell cfg c k) .removed (.inr rfl)
    rw [cell_removeSessionChannel]
    simpa [Input.up, Input.down] using step
  | channelQuit c shard keys =>
    cases handled
    exact inv.hearQuit received
  | channelMemberVanished c k =>
    cases handled
    have tables : Tables c k { s with links := rest } _ := tables_removeMember
    refine inv.hear received rfl tables.only (bounds.of_sessions tables.sessions) ?_
    have step : Step ok _ _ :=
      .leave ({ s with links := rest }.cell cfg c k) .vanished (.inr rfl)
    rw [removeVanishedMember, tables.cell, era_removeMember]
    simpa [Input.up, Input.down, cell] using step

end Deliver

end Inv

/-! ## Runs -/

variable [DecidableEq Shard] {ok : Cell → Prop}

/-- A JOIN to another shard is sent where its cell meets `ok`. -/
def Meets (ok : Cell → Prop) (cfg : Config Shard) (s : State Shard) : Event Shard → Prop
  | .join conn key _ => cfg.home conn ≠ cfg.channelOwner key → ok (s.cell cfg conn key)
  | _ => True

theorem Inv.step {event : Event Shard} (inv : Inv ok cfg s) (meets : s.Meets ok cfg event)
    (stepped : s.step cfg event = some s') : Inv ok cfg s' := by
  cases event with
  | connect =>
    cases stepped
    exact inv.connect
  | join c k joinKey =>
    obtain ⟨session, found, done⟩ := bind_eq_some_iff.mp stepped
    cases done
    exact inv.cmdJoin found joinKey meets
  | joinZero c =>
    obtain ⟨session, found, done⟩ := bind_eq_some_iff.mp stepped
    cases done
    exact inv.cmdJoinZero found
  | part c k =>
    obtain ⟨session, found, done⟩ := bind_eq_some_iff.mp stepped
    cases done
    exact inv.cmdPart found
  | kick c k victim =>
    obtain ⟨session, -, done⟩ := bind_eq_some_iff.mp stepped
    split at done
    · cases done
      exact inv.kickOnOwner victim
    · rename_i elsewhere
      cases done
      exact inv.kick victim (Ne.symm elsewhere)
  | close c =>
    obtain ⟨session, found, done⟩ := bind_eq_some_iff.mp stepped
    cases done
    exact inv.close found
  | mode k modes invited ops =>
    obtain ⟨chan, found, done⟩ := bind_eq_some_iff.mp stepped
    cases done
    exact inv.mode found modes invited ops
  | deliver src dst =>
    obtain ⟨⟨input, rest⟩, received, handled⟩ := bind_eq_some_iff.mp stepped
    exact inv.handle received handled

/-- Every run of the network keeps the invariant. -/
theorem network_inv {es : List (Event Shard)}
    (run : (network cfg).Run (fun _ s event => s.Meets ok cfg event) es s) : Inv ok cfg s :=
  run.invariant (P := fun _ s => Inv ok cfg s) inv_init fun _ _ _ _ => Inv.step

end State

end E6irc.Membership
