import E6irc.Core.Sharded

/-!
# What a released identity leaves behind

A shard that has handled the release of a `~nick` identity must hold no message
of the session that let it go.  The link from that session's shard delivers its
messages before its release, so every other shard is safe; its own shard frees
the rings the moment the identity goes, and a peer's message still on its way
there lands after that.

`Copies.Kept` is the invariant of the copies: a release that finds no such
message on its way keeps it.
-/

namespace E6irc.Sharded

open Base List

variable {Shard : Type}

/-- No shard that has handled a release holds a message of the party released. -/
def Copies.Forgotten (c : Copies Shard) : Prop :=
  ∀ shard party, (shard, party) ∈ c.handled → ∀ key entry, (c.history shard).Holds key entry →
    ∀ message ∈ c.sent, message.msgid = entry.msgid → party ∉ message.parties

namespace Copies

/-- Nothing behind a release on its link is a message of the party released. -/
def Behind (first later : ShardInput) : Prop :=
  ∀ party, first = .unauthenticatedIdentityReleased party → later.carries party = false

/-- No message of the party is on its way to the shard. -/
def Arrived (c : Copies Shard) (party : Party) (shard : Shard) : Prop :=
  ∀ src, ∀ input ∈ c.links src shard, input.carries party = false

/-- The copies' invariant. -/
structure Kept (cfg : Config Shard) (c : Copies Shard) : Prop where
  sound : ∀ shard, (c.history shard).Sound
  distinct : ∀ message ∈ c.sent, ∀ other ∈ c.sent, message.msgid = other.msgid → message = other
  named : ∀ message ∈ c.sent, ∀ party ∈ message.parties, party.identity ∈ message.key.identities
  stored : ∀ shard key entry, (c.history shard).Holds key entry →
    ∃ message ∈ c.sent, message.msgid = entry.msgid ∧ message.key = key
  carried : ∀ src dst key entry parties,
    .conversationEntry key entry parties ∈ c.links src dst →
      ⟨entry.msgid, key, parties⟩ ∈ c.sent ∧
        ∀ party ∈ parties, (cfg.home party.conn = src ∨ cfg.home party.conn = dst) ∧
          (dst, party) ∉ c.handled
  announced : ∀ src dst party, .unauthenticatedIdentityReleased party ∈ c.links src dst →
    party.tenure < c.tenure party.conn ∧ cfg.home party.conn = src ∧ src ≠ dst
  ended : ∀ shard party, (shard, party) ∈ c.handled → party.tenure < c.tenure party.conn
  ordered : c.links.Ordered Behind
  forgotten : c.Forgotten

variable {cfg : Config Shard} {c : Copies Shard}

theorem kept_empty : Kept cfg ⟨fun _ => .empty, .empty, fun _ => 0, [], []⟩ where
  sound _ := HotHistory.sound_empty
  distinct := by simp
  named := by simp
  stored _ _ _ held := absurd held HotHistory.not_holds_empty
  carried := by simp
  announced := by simp
  ended := by simp
  ordered _ _ := List.Pairwise.nil
  forgotten := by simp [Forgotten]

theorem Kept.log (kept : c.Kept cfg) (message : Sent)
    (fresh : ∀ other ∈ c.sent, other.msgid ≠ message.msgid)
    (named : ∀ party ∈ message.parties, party.identity ∈ message.key.identities) :
    (c.log message).Kept cfg where
  sound := kept.sound
  distinct := by
    intro m mem m' mem' same
    rcases mem_cons.mp mem with rfl | old <;> rcases mem_cons.mp mem' with rfl | old'
    · rfl
    · exact absurd same.symm (fresh m' old')
    · exact absurd same (fresh m old)
    · exact kept.distinct m old m' old' same
  named := by
    intro m mem
    rcases mem_cons.mp mem with rfl | old
    · exact named
    · exact kept.named m old
  stored shard key entry held := by
    obtain ⟨m, sent, found⟩ := kept.stored shard key entry held
    exact ⟨m, mem_cons_of_mem _ sent, found⟩
  carried src dst key entry parties queued := by
    obtain ⟨sent, ends⟩ := kept.carried src dst key entry parties queued
    exact ⟨mem_cons_of_mem _ sent, ends⟩
  announced := kept.announced
  ended := kept.ended
  ordered := kept.ordered
  forgotten shard party handled key entry held m mem same := by
    rcases mem_cons.mp mem with rfl | old
    · -- Its id is new, so nothing stored is this message yet.
      obtain ⟨m', sent, found, -⟩ := kept.stored shard key entry held
      exact absurd (found.trans same.symm) (fresh m' sent)
    · exact kept.forgotten shard party handled key entry held m old same

variable [DecidableEq Shard]

section

variable (kept : c.Kept cfg)
include kept

theorem Kept.pushHistory (message : Sent) (sent : message ∈ c.sent)
    {entry : HistoryRow} (same : message.msgid = entry.msgid) {shard : Shard}
    (held : ∀ party ∈ message.parties, (shard, party) ∉ c.handled) :
    (c.pushHistory cfg shard message.key entry).Kept cfg := by
  -- What a shard holds now it held before, or is the entry pushed.
  have holds {at_ : Shard} {key : HistoryKey} {row : HistoryRow}
      (now : ((c.pushHistory cfg shard message.key entry).history at_).Holds key row) :
      (c.history at_).Holds key row ∨ at_ = shard ∧ key = message.key ∧ row = entry := by
    rcases eq_or_ne at_ shard with rfl | apart
    · rw [pushHistory_here] at now
      rcases (kept.sound at_).holds_of_push now with before | pushed
      · exact .inl before
      · exact .inr ⟨rfl, pushed⟩
    · rw [pushHistory_elsewhere apart] at now
      exact .inl now
  refine { kept with sound := ?_, stored := ?_, forgotten := ?_ }
  · intro at_
    rcases eq_or_ne at_ shard with rfl | apart
    · rw [pushHistory_here]
      exact ((kept.sound at_).push _ _ _ _).1
    · rw [pushHistory_elsewhere apart]
      exact kept.sound at_
  · intro at_ key row now
    rcases holds now with before | ⟨-, rfl, rfl⟩
    · exact kept.stored at_ key row before
    · exact ⟨message, sent, same, rfl⟩
  · intro at_ party handled key row now m mem agree
    rcases holds now with before | ⟨rfl, -, rfl⟩
    · exact kept.forgotten at_ party handled key row before m mem agree
    · obtain rfl := kept.distinct message sent m mem (same.trans agree.symm)
      exact fun part => held party part handled

theorem Kept.routeEntry {src dst : Party} {key : HistoryKey}
    {entry : HistoryRow} (sent : ⟨entry.msgid, key, [src, dst]⟩ ∈ c.sent)
    (current : ∀ party ∈ [src, dst], party.tenure = c.tenure party.conn) :
    (c.routeEntry cfg src dst key entry).Kept cfg := by
  unfold Copies.routeEntry
  split
  · exact kept
  refine { kept with carried := ?_, announced := ?_, ordered := kept.ordered.send ?_ }
  · intro a b key' entry' parties queued
    rcases Links.mem_send.mp queued with before | ⟨⟨rfl, rfl⟩, new⟩
    · exact kept.carried a b key' entry' parties before
    cases new
    refine ⟨sent, fun party part => ⟨?_, fun handled => ?_⟩⟩
    · rcases mem_pair.mp part with rfl | rfl
      · exact .inl rfl
      · exact .inr rfl
    · exact absurd (current party part) (kept.ended _ party handled).ne
  · intro a b party queued
    rcases Links.mem_send.mp queued with before | ⟨-, new⟩
    · exact kept.announced a b party before
    · cases new
  · rintro _ queued party rfl
    refine decide_eq_false fun part => ?_
    exact absurd (current party part) (kept.announced _ _ party queued).1.ne

theorem Kept.recordConversation {src dst : Party} {entry : HistoryRow}
    (fresh : ∀ other ∈ c.sent, other.msgid ≠ entry.msgid)
    (current : ∀ party ∈ [src, dst], party.tenure = c.tenure party.conn)
    (left : IsIdentity src.identity) (right : IsIdentity dst.identity) :
    (c.recordConversation cfg src dst entry).Kept cfg := by
  let message : Sent := ⟨entry.msgid, dmConversationKey src.identity dst.identity, [src, dst]⟩
  have sides := mem_identities_dmConversationKey left right
  have logged : (c.log message).Kept cfg := kept.log message fresh fun party part => by
    rcases mem_pair.mp part with rfl | rfl
    · exact sides.1
    · exact sides.2
  have routed : ((c.log message).routeEntry cfg src dst message.key entry).Kept cfg :=
    logged.routeEntry mem_cons_self current
  refine routed.pushHistory message ?_ rfl fun party part handled => ?_
  · unfold Copies.routeEntry
    split <;> exact mem_cons_self
  have before : (cfg.home src.conn, party) ∈ c.handled := by
    unfold Copies.routeEntry at handled
    split at handled <;> exact handled
  exact absurd (current party part) (kept.ended _ party before).ne

theorem Kept.forgetUnauthenticatedIdentity {shard : Shard} {party : Party}
    (past : party.tenure < c.tenure party.conn) (arrived : c.Arrived party shard) :
    (c.forgetUnauthenticatedIdentity shard party).Kept cfg := by
  have holds {at_ : Shard} {key : HistoryKey} {row : HistoryRow}
      (now : ((c.forgetUnauthenticatedIdentity shard party).history at_).Holds key row) :
      (c.history at_).Holds key row ∧ (at_ = shard → party.identity ∉ key.identities) := by
    rcases eq_or_ne at_ shard with rfl | apart
    · rw [forget_here] at now
      obtain ⟨before, other⟩ := (kept.sound at_).holds_forgetIdentity_iff.mp now
      exact ⟨before, fun _ => other⟩
    · rw [forget_elsewhere apart] at now
      exact ⟨now, fun same => absurd same apart⟩
  refine { kept with sound := ?_, stored := ?_, carried := ?_, ended := ?_, forgotten := ?_ }
  · intro at_
    rcases eq_or_ne at_ shard with rfl | apart
    · rw [forget_here]
      exact ((kept.sound at_).forgetIdentity _).1
    · rw [forget_elsewhere apart]
      exact kept.sound at_
  · intro at_ key row now
    exact kept.stored at_ key row (holds now).1
  · intro src dst key entry parties queued
    obtain ⟨sent, ends⟩ := kept.carried src dst key entry parties queued
    refine ⟨sent, fun other part => ⟨(ends other part).1, fun handled => ?_⟩⟩
    rcases mem_cons.mp handled with new | old
    · cases new
      exact absurd part (of_decide_eq_false (arrived src _ queued))
    · exact (ends other part).2 old
  · intro at_ other handled
    rcases mem_cons.mp handled with new | old
    · cases new
      exact past
    · exact kept.ended at_ other old
  · intro at_ other handled key row now m mem same part
    rcases mem_cons.mp handled with new | old
    · cases new
      -- The message is stored under its own key, which names the identity freed.
      obtain ⟨m', sent, found, keyed⟩ := kept.stored shard key row (holds now).1
      obtain rfl := kept.distinct m mem m' sent (same.trans found.symm)
      exact (holds now).2 rfl (keyed ▸ kept.named m mem party part)
    · exact kept.forgotten at_ other old key row (holds now).1 m mem same part

/-- A release with no message of the party on its way to its shard. -/
theorem Kept.releaseUnauthenticatedIdentity {conn : ConnId} {nick : Bytes}
    (arrived : c.Arrived ⟨conn, c.tenure conn, unauthenticatedIdentity cfg.casemap nick⟩
      (cfg.home conn)) : (c.releaseUnauthenticatedIdentity cfg conn nick).Kept cfg := by
  unfold Copies.releaseUnauthenticatedIdentity
  have later (other : ConnId) :
      c.tenure other ≤ Function.update c.tenure conn (c.tenure conn + 1) other := by
    rcases eq_or_ne other conn with rfl | apart
    · simp
    · simp [Function.update_of_ne apart]
  refine Kept.forgetUnauthenticatedIdentity ?_ (by simp) ?_
  · refine { kept with
      carried := ?_
      announced := ?_
      ended := ?_
      ordered := kept.ordered.broadcast ?_ }
    · intro src dst key entry parties queued
      rcases Links.mem_broadcast.mp queued with before | ⟨-, new⟩
      · exact kept.carried src dst key entry parties before
      · cases new
    · intro src dst party queued
      rcases Links.mem_broadcast.mp queued with before | ⟨⟨rfl, other⟩, new⟩
      · obtain ⟨past, ends⟩ := kept.announced src dst party before
        exact ⟨past.trans_le (later _), ends⟩
      · cases new
        exact ⟨by simp, rfl, other.symm⟩
    · intro shard party handled
      exact (kept.ended shard party handled).trans_le (later _)
    · intro _ _ _ _ _ _
      rfl
  · intro src input queued
    rcases Links.mem_broadcast.mp queued with before | ⟨⟨-, other⟩, -⟩
    · exact arrived src input before
    · exact absurd rfl other

theorem Kept.deliver {src dst : Shard} {input : ShardInput}
    {links : Links Shard ShardInput} (received : c.links.receive src dst = some (input, links)) :
    (Copies.handleInput cfg { c with links } dst input).Kept cfg := by
  obtain ⟨ordered, behind⟩ := kept.ordered.receive received
  have queued := Links.head_mem received
  have rest : ({ c with links } : Copies Shard).Kept cfg :=
    { kept with
      carried := fun a b key entry parties left =>
        kept.carried a b key entry parties (Links.mem_of_receive received left)
      announced := fun a b party left =>
        kept.announced a b party (Links.mem_of_receive received left)
      ordered }
  cases input with
  | conversationEntry key entry parties =>
    obtain ⟨sent, ends⟩ := kept.carried src dst key entry parties queued
    exact rest.pushHistory _ sent rfl fun party part => (ends party part).2
  | unauthenticatedIdentityReleased party =>
    obtain ⟨past, home, other⟩ := kept.announced src dst party queued
    refine rest.forgetUnauthenticatedIdentity past fun a input left => ?_
    cases input with
    | unauthenticatedIdentityReleased _ => rfl
    | conversationEntry key entry parties =>
      refine decide_eq_false fun part => ?_
      -- A message of the party is on a link from or to its own shard, and
      -- this is neither that shard nor, past the release, a link from it.
      obtain ⟨-, ends⟩ := rest.carried a dst key entry parties left
      rcases (ends party part).1 with here | here
      · obtain rfl := here.symm.trans home
        exact absurd part (of_decide_eq_false (behind _ left party rfl))
      · exact other (home.symm.trans here)

end

end Copies

end E6irc.Sharded
