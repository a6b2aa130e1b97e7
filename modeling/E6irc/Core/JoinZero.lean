import E6irc.Core.MemberTables

/-!
# `JOIN 0` and the JOINs in flight

A `JOIN 0` parts the channels its session is in, and each JOIN in flight once it is
answered.  What the session keeps for that are two counts a channel, and they are
enough for `Session.joinAnswered` to be right about every answer (`Cell.Counted`).

The PART of an answer is another matter: it is sent when the answer comes and takes out
whatever member the owner then has.  A JOIN that was sent in between and found the
session a member already is undone by it (`later_join_parted`).  `Cell.Clean` is what
holds as long as no JOIN is sent while an earlier one is still owed a PART.
-/

namespace E6irc.Membership

open Base List

namespace Cell

/-- A PART that a `JOIN 0` caused is behind JOINs from before it only, and finds a member
from before it only. -/
structure PartsEarlier (member : Option ℕ) (up : List Up) : Prop where
  asked : up.Pairwise fun first last =>
    ∀ era zeros, first = .join era → last = .part (some zeros) → era < zeros
  member : ∀ zeros, .part (some zeros) ∈ up → ∀ m ∈ member, m < zeros

section PartsEarlier

variable {member : Option ℕ} {up : List Up}

/-- Something other than a PART of a `JOIN 0` is sent. -/
theorem PartsEarlier.send (earlier : PartsEarlier member up) {sent : Up}
    (apart : ∀ zeros, sent ≠ .part (some zeros) := by simp) : PartsEarlier member (up ++ [sent]) where
  asked := by
    refine pairwise_append.mpr ⟨earlier.asked, pairwise_singleton _ _, ?_⟩
    intro first _ last isSent era zeros _ isPart
    exact absurd ((mem_singleton.mp isSent).symm.trans isPart) (apart zeros)
  member := by
    intro zeros among
    rcases mem_append.mp among with before | isSent
    · exact earlier.member zeros before
    · exact absurd (mem_singleton.mp isSent).symm (apart zeros)

/-- A PART of a `JOIN 0` is sent behind JOINs and a member from before it. -/
theorem PartsEarlier.sendPart (earlier : PartsEarlier member up) {zeros : ℕ}
    (asked : ∀ era, .join era ∈ up → era < zeros) (held : ∀ m ∈ member, m < zeros) :
    PartsEarlier member (up ++ [.part (some zeros)]) where
  asked := by
    refine pairwise_append.mpr ⟨earlier.asked, pairwise_singleton _ _, ?_⟩
    intro first among last isLast era z isJoin isPart
    obtain rfl := mem_singleton.mp isLast
    cases isPart
    exact asked era (isJoin ▸ among)
  member := by
    intro z among
    rcases mem_append.mp among with before | isLast
    · exact earlier.member z before
    · cases mem_singleton.mp isLast
      exact held

theorem PartsEarlier.tail {first : Up} (earlier : PartsEarlier member (first :: up)) :
    PartsEarlier member up where
  asked := (pairwise_cons.mp earlier.asked).2
  member := fun zeros among => earlier.member zeros (mem_cons_of_mem _ among)

/-- The JOIN at the front makes the member: it was ahead of every PART. -/
theorem PartsEarlier.answer {era : ℕ} (earlier : PartsEarlier member (.join era :: up)) :
    PartsEarlier (some era) up where
  asked := (pairwise_cons.mp earlier.asked).2
  member := by
    intro zeros among m held
    cases held
    exact (pairwise_cons.mp earlier.asked).1 _ among _ zeros rfl rfl

theorem PartsEarlier.takeOut (earlier : PartsEarlier member up) : PartsEarlier none up :=
  ⟨earlier.asked, nofun⟩

end PartsEarlier

/-- What a cell keeps if no JOIN is sent while another is owed a PART. -/
structure Clean (x : Cell) : Prop where
  /-- Either no JOIN in flight is owed a PART or all are. -/
  owed : 0 < x.owed → ∀ era ∈ x.inFlight, era < x.zeros
  earlier : PartsEarlier x.member x.up

section

variable {x y : Cell}

/-- The eras asked are among those in flight. -/
theorem mem_inFlight_of_asked {era : ℕ} (asked : .join era ∈ x.up) : era ∈ x.inFlight :=
  mem_append_right _ (mem_filterMap.mpr ⟨.join era, asked, rfl⟩)

theorem Clean.joinZero (clean : x.Clean) (live : x.Live) :
    Clean { x with
      zeros := x.zeros + 1
      owed := x.pending
      up := x.up ++ if x.listed then [.part (some (x.zeros + 1))] else [] } := by
  have same : (x.up ++ if x.listed then [Up.part (some (x.zeros + 1))] else []).filterMap Up.asked =
      x.up.filterMap Up.asked := by
    split <;> simp
  refine ⟨fun _ era among => ?_, ?_⟩
  · rw [inFlight, same] at among
    exact Nat.lt_succ_of_le (live.counted.bounded era among)
  split
  · refine clean.earlier.sendPart (fun era asked => ?_) fun m held => ?_
    · exact Nat.lt_succ_of_le (live.counted.bounded era (mem_inFlight_of_asked asked))
    · exact Nat.lt_succ_of_le (live.admitted m held).low
  · rw [append_nil]
    exact clean.earlier

/-- The owner answers a JOIN: its era moves from one queue to the other. -/
theorem inFlight_answer {era : ℕ} {news : Down} {member : Option ℕ}
    (answers : news.answered = some era) :
    inFlight { x with member := member, down := x.down ++ [news] } =
      inFlight { x with up := .join era :: x.up } := by
  simp only [inFlight, filterMap_append, filterMap_cons_some answers, filterMap_nil,
    filterMap_cons_some (f := Up.asked) (a := .join era) rfl, append_assoc, singleton_append]

theorem Clean.hearJoined {era : ℕ} (clean : Clean { x with down := .joined era :: x.down })
    (live : Live { x with down := .joined era :: x.down }) :
    Clean { x with
      listed := true
      pending := x.pending - 1
      owed := x.owed - 1
      up := x.up ++ if 0 < x.owed then [.part (some x.zeros)] else [] } := by
  have same : (x.up ++ if 0 < x.owed then [Up.part (some x.zeros)] else []).filterMap Up.asked =
      x.up.filterMap Up.asked := by
    split <;> simp
  refine ⟨fun owes other among => ?_, ?_⟩
  · rw [inFlight, same] at among
    exact clean.owed (Nat.lt_of_lt_of_le owes (Nat.sub_le _ _)) other (mem_cons_of_mem _ among)
  split
  · rename_i owes
    refine clean.earlier.sendPart (fun other asked => ?_) fun m held => ?_
    · exact clean.owed owes other (mem_inFlight_of_asked asked)
    · -- the JOIN that found or made the member is one of those still to be answered
      exact clean.owed owes m (mem_append_left _ ((live.admitted m held).last (cons_ne_nil _ _)))
  · rw [append_nil]
    exact clean.earlier

theorem Clean.step (clean : x.Clean) (inv : x.Inv) (step : Step (fun x => x.owed = 0) x y) :
    y.Clean := by
  cases step with
  | join _ _ none_owed =>
    exact ⟨fun owes => absurd none_owed owes.ne', clean.earlier.send⟩
  | joinZero _ alive => exact clean.joinZero (inv.1 alive)
  | part _ _ =>
    refine ⟨fun owes era among => clean.owed owes era ?_, clean.earlier.send⟩
    simpa [inFlight] using among
  | close _ _ =>
    refine ⟨fun owes => absurd owes (Nat.lt_irrefl _), ?_⟩
    dsimp only
    split
    · exact clean.earlier.send
    · rw [append_nil]
      exact clean.earlier
  | letIn x era _ | know x era _ _ =>
    refine ⟨fun owes other among => clean.owed owes other ?_, clean.earlier.answer⟩
    rwa [inFlight_answer rfl] at among
  | refuse x era absent =>
    refine ⟨fun owes other among => clean.owed owes other ?_, clean.earlier.tail⟩
    rwa [inFlight_answer rfl] at among
  | remove x _ =>
    refine ⟨fun owes era among => clean.owed owes era ?_, clean.earlier.tail.takeOut⟩
    have same : (x.down ++ if x.member.isSome then [Down.parted] else []).filterMap Down.answered =
        x.down.filterMap Down.answered := by
      split <;> simp
    rwa [inFlight, same] at among
  | leave x _ leaves =>
    refine ⟨fun owes era among => clean.owed owes era ?_, clean.earlier.tail.takeOut⟩
    rcases leaves with rfl | rfl <;> exact among
  | kick _ =>
    refine ⟨fun owes era among => clean.owed owes era ?_, clean.earlier.takeOut⟩
    simpa [inFlight] using among
  | hearJoined x _ alive => exact clean.hearJoined (inv.1 alive)
  | hearUnchanged x era alive =>
    refine ⟨fun owes other among => ?_, clean.earlier⟩
    exact clean.owed (Nat.lt_of_lt_of_le owes (Nat.sub_le _ _)) other (mem_cons_of_mem _ among)
  | hearNoMore x _ noMore =>
    refine ⟨fun owes era among => clean.owed owes era ?_, clean.earlier⟩
    rcases noMore with rfl | rfl <;> exact among
  | vanish x era _ =>
    refine ⟨fun owes other among => clean.owed owes other ?_, clean.earlier.send⟩
    refine mem_cons_of_mem _ ?_
    simpa [inFlight] using among
  | ignore _ era _ =>
    exact ⟨fun owes other among => clean.owed owes other (mem_cons_of_mem _ among), clean.earlier⟩

theorem Reach.clean (reach : Reach (fun x => x.owed = 0) x) : x.Clean := by
  induction reach with
  | refl => exact ⟨nofun, .nil, nofun⟩
  | tail reached step ih => exact ih.step (Reach.inv reached) step

end

end Cell

namespace State

variable {Shard : Type} {cfg : Config Shard} {s : State Shard}

/-- No JOIN is sent to a channel of another shard while an earlier one to it is to be
parted once it is answered. -/
def NoneOwed (cfg : Config Shard) (s : State Shard) : Event Shard → Prop
  | .join conn key _ => cfg.home conn ≠ cfg.channelOwner key →
    ∀ session, s.sessions conn = some session → session.partOnJoin.count key = 0
  | _ => True

theorem NoneOwed.meets {event : Event Shard} (none_owed : s.NoneOwed cfg event) :
    s.Meets (fun x => x.owed = 0) cfg event := by
  cases event with
  | join conn key joinKey =>
    intro remote
    rw [cell]
    cases found : s.sessions conn with
    | none => rfl
    | some session => exact none_owed remote session found
  | _ => trivial

variable [DecidableEq Shard]

/-- What a session is promised of its JOINs and `JOIN 0`s. -/
structure JoinsKept (s : State Shard) : Prop where
  /-- The channels it is in and those with a JOIN in flight are not too many. -/
  bounded : ∀ conn session, s.sessions conn = some session →
    session.sessionChannels.length ≤ maxChannelsPerSession
  /-- An answer is that of a JOIN in flight, and is owed a PART exactly if a `JOIN 0` was
  sent after the JOIN. -/
  answered : ∀ src dst conn key result era rest session,
    s.links.receive src dst = some (.channelJoinResult conn key result era, rest) →
    s.sessions conn = some session →
    ∃ partNow after, session.joinAnswered key = some (partNow, after) ∧
      (partNow = true ↔ era < session.zeros)
  /-- What joined before a `JOIN 0` is parted once nothing is on its way. -/
  parted : (∀ src dst, s.links src dst = []) → ∀ conn key session chan member,
    s.sessions conn = some session → s.channels key = some chan →
    chan.members.lookup conn = some member → session.zeros ≤ member.era
  /-- The PART of a `JOIN 0` does not find what joined after it. -/
  kept : ∀ src dst conn key zeros rest chan member,
    s.links.receive src dst = some (.channelPart conn key (some zeros), rest) →
    s.channels key = some chan → chan.members.lookup conn = some member → member.era < zeros

section Kept

variable {src dst : Shard} {conn : ConnId} {key : ChanKey} {rest : Links Shard (Input Shard)}

variable {ok : Cell → Prop} {m : ℕ}

/-- The oldest input on a link is the oldest its cell waits for. -/
theorem Inv.front {input : Input Shard} (inv : Inv ok cfg s)
    (received : s.links.receive src dst = some (input, rest))
    (subject : input.subject = some (conn, key)) : cfg.home conn ≠ cfg.channelOwner key ∧
      (s.cell cfg conn key).up = (input.up conn key).toList ++
        ({ s with links := rest }.cell cfg conn key).up ∧
      (s.cell cfg conn key).down = (input.down conn key).toList ++
        ({ s with links := rest }.cell cfg conn key).down := by
  obtain ⟨isSrc, isDst, apart, -⟩ := inv.routed src dst input (Links.head_mem received)
  rw [← isSrc, ← isDst] at apart
  exact ⟨Input.remote_of_subject subject apart, ups_receive inv.routed received,
    downs_receive inv.routed received⟩

variable {session : Session}

/-- The answer's era decides whether it is owed a PART. -/
theorem Inv.answered (inv : Inv ok cfg s) {result : ChannelJoinResult} {era : ℕ}
    (received : s.links.receive src dst = some (.channelJoinResult conn key result era, rest))
    (found : s.sessions conn = some session) :
    ∃ partNow after, session.joinAnswered key = some (partNow, after) ∧
      (partNow = true ↔ era < session.zeros) := by
  obtain ⟨remote, -, down⟩ := inv.front received rfl
  have live := (inv.reach conn key remote (inv.born_of_session found)).inv.1 (by rw [cell, found]; rfl)
  have counted : Cell.Counted (session.pendingJoins.count key) (session.partOnJoin.count key)
      session.zeros (s.cell cfg conn key).inFlight := by
    have counted := live.counted
    rw [cell, found] at counted ⊢
    exact counted
  have first : ∃ eras, (s.cell cfg conn key).inFlight = era :: eras := by
    have answers : ((Input.channelJoinResult conn key result era : Input Shard).down conn key).toList =
        [if result = .joined then Down.joined era else .unchanged era] := by
      simp [Input.down]
    rw [Cell.inFlight, down, answers]
    split
    · exact ⟨_, rfl⟩
    · exact ⟨_, rfl⟩
  obtain ⟨eras, first⟩ := first
  rw [first] at counted
  have pending : 0 < session.pendingJoins.count key := by
    rw [counted.pending]
    exact Nat.succ_pos _
  refine ⟨decide (0 < session.partOnJoin.count key), _,
    Session.joinAnswered_eq_some.mpr ⟨pending, rfl, rfl⟩, ?_⟩
  rw [decide_eq_true_iff]
  exact counted.owed_pos

theorem Inv.parted (inv : Inv ok cfg s) (quiet : ∀ src dst, s.links src dst = [])
    (found : s.sessions conn = some session)
    (member : s.era conn key = some m) : session.zeros ≤ m := by
  have zeros : (s.cell cfg conn key).zeros = session.zeros := by
    rw [cell, found]
    rfl
  rw [← zeros]
  by_cases here : cfg.home conn = cfg.channelOwner key
  · exact (inv.settled conn key here).current m member
  have live := (inv.reach conn key here (inv.born_of_session found)).inv.1 (by rw [cell, found]; rfl)
  refine Nat.le_of_not_lt fun below => ?_
  have parting := live.parting m member below
  rw [up_of_quiet quiet, down_of_quiet quiet] at parting
  simp at parting

theorem Inv.kept (inv : Inv (fun x => x.owed = 0) cfg s) {zeros : ℕ}
    (received : s.links.receive src dst = some (.channelPart conn key (some zeros), rest))
    (member : s.era conn key = some m) : m < zeros := by
  obtain ⟨remote, up, -⟩ := inv.front received rfl
  have born : conn < s.nextConn := by
    refine inv.born (k := key) fun unborn => ?_
    rw [unborn] at up
    simp [Input.up, Cell.unborn] at up
  have clean := (inv.reach conn key remote born).clean
  refine clean.earlier.member zeros ?_ m member
  rw [up]
  simp [Input.up]

end Kept

end State

/-- Every run in which no JOIN is sent while an earlier one to its channel is owed a PART
keeps what a session is promised. -/
theorem joins_kept {Shard : Type} [DecidableEq Shard] {cfg : Config Shard}
    {es : List (Event Shard)} {s : State Shard}
    (run : (network cfg).Run (fun _ s event => s.NoneOwed cfg event) es s) : s.JoinsKept := by
  have inv : s.Inv (fun x => x.owed = 0) cfg :=
    State.network_inv (run.mono fun _ _ _ => State.NoneOwed.meets)
  have era {conn : ConnId} {key : ChanKey} {chan : Channel} {member : Member}
      (found : s.channels key = some chan) (held : chan.members.lookup conn = some member) :
      s.era conn key = some member.era := by
    rw [State.era_of_found found, held]
    rfl
  exact {
    bounded := inv.bounds
    answered := fun _ _ _ _ _ _ _ _ received found => inv.answered received found
    parted := fun quiet _ _ _ _ _ found isChan held => inv.parted quiet found (era isChan held)
    kept := fun _ _ _ _ _ _ _ _ received isChan held => inv.kept received (era isChan held) }

/-- A JOIN across the shards, `JOIN 0` and the same JOIN again, up to the PART of the first
answer. -/
def joinsAgain : List (Event Bool) :=
  [.connect, .join 0 (ascii "#a") none, .joinZero 0, .join 0 (ascii "#a") none,
    .deliver false true, .deliver false true, .deliver true false]

/-- A JOIN across the shards, `JOIN 0` once it is answered and the same JOIN again. -/
def joinsAfter : List (Event Bool) :=
  joinsAcross ++ [.joinZero 0, .join 0 (ascii "#a") none, .deliver false true, .deliver false true]

/-- Nothing is owed for the channel of a JOIN, as it is computed. -/
def State.oweNone (s : State Bool) : Event Bool → Bool
  | .join conn key _ => (s.sessions conn).all (·.partOnJoin.count key == 0)
  | _ => true

theorem joins_kept_answered :
    ∃ s, (network twoShards).Run (fun _ s event => s.NoneOwed twoShards event) joinsAfter s ∧
      (s.era 0 (ascii "#a")) = some 1 ∧ s.JoinsKept := by
  have none_owed (s : State Bool) (event : Event Bool) (may : s.oweNone event = true) :
      s.NoneOwed twoShards event := by
    cases event with
    | join conn key joinKey =>
      intro _ session found
      simpa [State.oweNone, found] using may
    | _ => trivial
  have observed : (((network twoShards).restrict State.oweNone).exec joinsAfter).map
      (State.era · 0 (ascii "#a")) = some (some 1) := by
    decide +kernel
  obtain ⟨s, replay, member⟩ := System.exists_run observed
  have run := replay.of_restrict.mono fun _ s event => none_owed s event
  exact ⟨s, run, member, joins_kept run⟩

/-- The PART of a `JOIN 0` takes out what the JOIN after it found. -/
theorem later_join_parted :
    ∃ s, (network twoShards).Run System.anyStep joinsAgain s ∧
      (∃ rest, s.links.receive false true = some (.channelPart 0 (ascii "#a") (some 1), rest)) ∧
      (∃ chan member, s.channels (ascii "#a") = some chan ∧
        chan.members.lookup 0 = some member ∧ member.era = 1) ∧ ¬ s.JoinsKept := by
  have observed : ((network twoShards).exec joinsAgain).map (fun s =>
      ((s.links false true).head?.bind (Input.up 0 (ascii "#a")), s.era 0 (ascii "#a"))) =
        some (some (.part (some 1)), some 1) := by
    decide +kernel
  obtain ⟨s, replay, seen⟩ := System.exists_run observed
  obtain ⟨parts, joined⟩ := Prod.mk.inj seen
  obtain ⟨input, isHead, asks⟩ := Option.bind_eq_some_iff.mp parts
  obtain ⟨queue, link⟩ := List.head?_eq_some_iff.mp isHead
  have isPart : input = .channelPart 0 (ascii "#a") (some 1) := by
    cases input with
    | channelPart conn key owed =>
      obtain ⟨⟨rfl, rfl⟩, same⟩ := Option.ite_none_right_eq_some.mp asks
      cases same
      rfl
    | _ => simp [Input.up] at asks
  obtain ⟨chan, found, held⟩ := Option.bind_eq_some_iff.mp joined
  obtain ⟨member, held, era⟩ := Option.map_eq_some_iff.mp held
  have received : ∃ rest, s.links.receive false true =
      some (.channelPart 0 (ascii "#a") (some 1), rest) := by
    rw [Links.receive, link, isPart]
    exact ⟨_, rfl⟩
  refine ⟨s, replay, received, ⟨chan, member, found, held, era⟩, fun kept => ?_⟩
  obtain ⟨rest, received⟩ := received
  have before := kept.kept false true 0 (ascii "#a") 1 rest chan member received found held
  exact absurd era before.ne

end E6irc.Membership
