import E6irc.Base.Result
import E6irc.Base.Run
import E6irc.Bouncer.Replies

/-!
# Answers that arrive in order

Attachments forward queries to an upstream that answers them one after another, in
the order forwarded, each with the numerics its query lists.  The router's queue is
then the list of what the upstream has yet to answer (`Matched`), and a numeric is
rightly attributed when it falls to the first of them.

A numeric falls to another query when that one names the numeric's subject and the
first one does not: a `WHO` of a nick is answered by lines that name a channel.
-/

namespace E6irc.Bouncer.Routing

open Base Client List Option ReplyRouter

/-- A query the upstream has yet to answer, and who asked it. -/
structure Asked where
  origin : ℕ
  query : Query
deriving DecidableEq, Repr

structure State where
  router : ReplyRouter
  outstanding : List Asked
  /-- What became of each numeric, and whom it answered. -/
  routed : List (Upstream × ℕ)

/-- What happens on one upstream connection, at the time `now`. -/
inductive Event
  | forward (origin : ℕ) (line : Bytes) (names : NetworkNames) (now : ℕ)
  | numeric (message : OwnedMessage) (raw : Bytes) (names : NetworkNames) (ownNick : Bytes)
    (now : ℕ)
deriving DecidableEq, Repr

/-- Nothing that waits is overdue. -/
def State.InTime (s : State) (now : ℕ) : Prop :=
  ∀ pending ∈ s.router.pending, isFresh now pending.since = true

instance (s : State) (now : ℕ) : Decidable (s.InTime now) :=
  inferInstanceAs (Decidable (∀ pending ∈ s.router.pending, _))

/-- The query that is forwarded: one this upstream answers itself. -/
def asked (origin : ℕ) (line : Bytes) : Option Asked := do
  let message ← (Message.parse line).toOption
  let query ← queryOf (toAsciiUppercase message.command) message.params
  guard (query.isRemote message.params = false)
  some ⟨origin, query⟩

/-- The upstream answers the first query outstanding, with one of its replies or
with an end; it labels nothing, and no join burst is under way. -/
def upstream : System State Event where
  init := ⟨.new, [], []⟩
  step s
    | .forward origin line names now => do
      guard (origin ≠ 0 ∧ s.router.pending.length < maxPending ∧ s.InTime now)
      let query ← asked origin line
      some
        { s with
          router := (s.router.forward origin line .order names now).2
          outstanding := s.outstanding ++ [query] }
    | .numeric message raw names ownNick now => do
      let first ← s.outstanding.head?
      let code ← message.numeric
      guard (code ∈ first.query.replies ∨ code ∈ first.query.ends)
      guard (message.tag (ascii "label") = none ∧ message.tag (ascii "batch") = none)
      guard (s.router.joining = [] ∧ s.InTime now)
      let (result, router) := s.router.classify message raw names ownNick now
      some
        { router
          outstanding := if code ∈ first.query.ends then s.outstanding.tail else s.outstanding
          routed := s.routed ++ [(result, first.origin)] }

/-- Every numeric was a reply to the attachment that asked. -/
def State.Routed (s : State) : Prop :=
  ∀ result origin, (result, origin) ∈ s.routed → ∃ line, result = .reply line origin

/-- The numeric names a subject of the first query that waits, or of no later one
that could be taken for it. -/
def State.Unmistakable (s : State) : Event → Prop
  | .forward .. => True
  | .numeric message _ names _ _ =>
    let subject := message.numericSubject.map names.fold
    ∀ code ∈ message.numeric, ∀ first ∈ s.router.pending.head?, first.about subject = true ∨
      ∀ pending ∈ s.router.pending.tail, pending.about subject = true →
        pending.answers code = false ∧ code ≠ rplAway

instance (s : State) : (event : Event) → Decidable (s.Unmistakable event)
  | .forward .. => inferInstanceAs (Decidable True)
  | .numeric message _ _ _ _ =>
    inferInstanceAs (Decidable (∀ code ∈ message.numeric, ∀ first ∈ s.router.pending.head?, _))

/-! ## A numeric that falls to the first query -/

variable {r : ReplyRouter} {first : Pending} {later : List Pending} {code now : ℕ}
  {message : OwnedMessage} {names : NetworkNames} {subject : Option Bytes}

theorem expire_pending (inTime : ∀ pending ∈ r.pending, isFresh now pending.since = true) :
    (r.expire now).pending = r.pending :=
  filter_eq_self.mpr inTime

theorem attribution_eq_zero (waiting : r.pending = first :: later)
    (expected : first.answers code = true)
    (unmistakable : first.about (message.numericSubject.map names.fold) = true ∨
      ∀ pending ∈ later, pending.about (message.numericSubject.map names.fold) = true →
        pending.answers code = false ∧ code ≠ rplAway) :
    r.attribution code message names = some 0 := by
  simp only [attribution, waiting]
  generalize message.numericSubject.map names.fold = subject at unmistakable ⊢
  rcases Bool.eq_false_or_eq_true (first.about subject) with about | other
  · simp [List.findIdx?_cons, expected, about]
  -- neither the first nor a later one is about the subject in a way that counts
  have apart := unmistakable.resolve_left (by simp [other])
  have noSubject : (first :: later).findIdx?
      (fun pending => pending.answers code && pending.about subject) = none := by
    refine List.findIdx?_eq_none_iff.mpr (forall_mem_cons.mpr ⟨by simp [other], ?_⟩)
    intro pending mem
    rcases Bool.eq_false_or_eq_true (pending.about subject) with about | notAbout
    · simp [(apart pending mem about).1]
    · simp [notAbout]
  have noAway : (if code = rplAway then (first :: later).findIdx? (·.about subject) else none) =
      none := by
    refine ite_eq_right_iff.mpr fun away => ?_
    refine List.findIdx?_eq_none_iff.mpr (forall_mem_cons.mpr ⟨other, ?_⟩)
    intro pending mem
    exact Bool.eq_false_iff.mpr fun about => (apart pending mem about).2 away
  rw [noSubject, noAway, List.findIdx?_cons, expected]
  rfl

theorem answerToNumeric_first (waiting : r.pending = first :: later)
    (ordered : r.pending.Pairwise (·.id < ·.id))
    (attributed : r.attribution code message names = some 0) :
    r.answerToNumeric code message names = (some first.origin,
      { r with pending := if first.endedBy code then later else first :: later }) := by
  have kept : ∀ pending ∈ first :: later, first.id ≤ pending.id := by
    rw [waiting] at ordered
    refine forall_mem_cons.mpr ⟨Nat.le_refl _, fun pending mem => ?_⟩
    exact Nat.le_of_lt ((pairwise_cons.mp ordered).1 pending mem)
  have all {l : List Pending} (within : ∀ pending ∈ l, pending ∈ first :: later) :
      l.filter (fun pending =>
        decide (first.id ≤ pending.id) || pending.remote || pending.query.isNone) = l := by
    refine filter_eq_self.mpr fun pending mem => ?_
    simp [kept pending (within pending mem)]
  simp only [answerToNumeric, attributed, waiting, List.getElem?_cons_zero,
    eraseIdx_cons_zero]
  split
  · rw [all fun pending mem => mem_cons_of_mem _ mem]
  · rw [all fun pending mem => mem]

theorem command_of_numeric (numeric : message.numeric = some code) :
    message.command.length = 3 ∧ message.command ≠ ascii "ACK" := by
  unfold OwnedMessage.numeric at numeric
  split at numeric
  · rename_i three
    refine ⟨three, fun acknowledged => ?_⟩
    rw [acknowledged, show parseUnsigned 16 (ascii "ACK") = none by decide] at numeric
    contradiction
  · contradiction

variable {raw ownNick line : Bytes} {origin : ℕ}

/-- A numeric without a label, outside a join burst, is attributed by its code. -/
theorem classify_numeric (numeric : message.numeric = some code)
    (unlabelled : message.tag (ascii "label") = none)
    (unbatched : message.tag (ascii "batch") = none) (settled : r.joining = []) :
    r.classify message raw names ownNick now =
      (r.expire now).classifyUnlabelled message (withoutFramingTags raw) names := by
  obtain ⟨three, notAck⟩ := command_of_numeric numeric
  have other {word : Bytes} (length : word.length ≠ 3) : message.command ≠ word :=
    fun same => length (same ▸ three)
  have notBatch : message.command ≠ ascii "BATCH" := other (by decide)
  have notPong : barrierCovered message = none := by
    have : message.command ≠ ascii "PONG" := other (by decide)
    simp [barrierCovered, this]
  have notJoin : (r.expire now).trackJoinBurst message names ownNick = r.expire now := by
    refine if_neg fun joined => ?_
    have length := congrArg List.length joined.2
    rw [toAsciiUppercase, length_map, three] at length
    exact absurd length (by decide)
  have noBurst : (r.expire now).inJoinBurst code message names = (false, r.expire now) := by
    have none : (r.expire now).joining = [] := settled
    unfold inJoinBurst
    split <;> simp [none]
  simp [classify, notBatch, notPong, notAck, notJoin, noBurst, numeric, unlabelled,
    batchLabel, unbatched]

/-! ## The queue is what the upstream has yet to answer -/

structure State.Matched (s : State) : Prop where
  paired : List.Forall₂ (fun pending asked =>
    pending.origin = asked.origin ∧ pending.query = some asked.query) s.router.pending s.outstanding
  listed : ∀ asked ∈ s.outstanding, asked.query ∈ queries
  ordered : s.router.pending.Pairwise (·.id < ·.id)
  counted : ∀ pending ∈ s.router.pending, pending.id ≤ s.router.nextId

variable {s s' : State} {event : Event}

theorem mem_queries_of_asked {query : Asked}
    (parsed : asked origin line = some query) : query.query ∈ queries := by
  obtain ⟨message, -, parsed⟩ := bind_eq_some_iff.mp parsed
  obtain ⟨found, asks, parsed⟩ := bind_eq_some_iff.mp parsed
  obtain ⟨-, ⟨⟩⟩ := guard_bind_eq_some.mp parsed
  obtain ⟨entry, isEntry, kept⟩ := bind_eq_some_iff.mp asks
  obtain ⟨-, ⟨⟩⟩ := ite_none_right_eq_some.mp kept
  exact mem_of_find?_eq_some isEntry

/-- A reply that is no end is no error either. -/
theorem endedBy_iff {query : Query} (listed : query ∈ queries)
    (answering : code ∈ query.replies ∨ code ∈ query.ends) (is : first.query = some query) :
    first.endedBy code = true ↔ code ∈ query.ends := by
  have harmless : ∀ query ∈ queries, ∀ code ∈ query.replies, isError code = false := by decide
  rcases answering with reply | ends
  · simp [Pending.endedBy, is, harmless query listed code reply]
  · simp [Pending.endedBy, is, ends]

theorem forward_order {query : Asked} (names : NetworkNames)
    (parsed : asked origin line = some query) (attached : origin ≠ 0)
    (room : r.pending.length < maxPending)
    (inTime : ∀ pending ∈ r.pending, isFresh now pending.since = true) :
    ∃ added : Pending, added.id = r.nextId + 1 ∧
      (added.origin = query.origin ∧ added.query = some query.query) ∧
      (r.forward origin line .order names now).2 =
        { r.expire now with pending := r.pending ++ [added], nextId := r.nextId + 1 } := by
  obtain ⟨message, isMessage, parsed⟩ := bind_eq_some_iff.mp parsed
  obtain ⟨found, asks, parsed⟩ := bind_eq_some_iff.mp parsed
  obtain ⟨-, ⟨⟩⟩ := guard_bind_eq_some.mp parsed
  have ok : Message.parse line = .ok message := toOption_eq_some isMessage
  have waiting : (r.expire now).pending = r.pending := expire_pending inTime
  let added : Pending :=
    { id := r.nextId + 1
      origin
      verb := toAsciiUppercase message.command
      targets := commandTargets (toAsciiUppercase message.command) message.params names
      query := some found
      remote := found.isRemote message.params
      since := now }
  refine ⟨added, rfl, ⟨rfl, rfl⟩, ?_⟩
  have next : (r.expire now).nextId = r.nextId := rfl
  simp [forward, ok, attached, waiting, Nat.not_le.mpr room, asks, added, next]

theorem State.Matched.forward {query : Asked} (matched : s.Matched)
    (parsed : asked origin line = some query) (attached : origin ≠ 0)
    (room : s.router.pending.length < maxPending) (inTime : s.InTime now) : State.Matched { s with
        router := (s.router.forward origin line .order names now).2
        outstanding := s.outstanding ++ [query] } := by
  obtain ⟨added, newest, same, result⟩ := forward_order names parsed attached room inTime
  have forwarded := congrArg pending result
  have next := congrArg nextId result
  constructor
  · rw [forwarded]
    exact rel_append matched.paired (.cons same .nil)
  · refine forall_mem_append.mpr ⟨matched.listed, ?_⟩
    exact forall_mem_singleton.mpr (mem_queries_of_asked parsed)
  · rw [forwarded]
    refine pairwise_append.mpr ⟨matched.ordered, pairwise_singleton _ _, ?_⟩
    intro pending mem last isLast
    rw [mem_singleton.mp isLast, newest]
    exact Nat.lt_succ_of_le (matched.counted pending mem)
  · rw [forwarded, next]
    refine forall_mem_append.mpr ⟨fun pending mem => ?_, ?_⟩
    · exact Nat.le_succ_of_le (matched.counted pending mem)
    · exact forall_mem_singleton.mpr (Nat.le_of_eq newest)

/-- The oldest query that waits is the one being answered, and the numeric goes to
whoever asked it. -/
theorem State.Matched.classify {answered : Asked} {rest : List Asked}
    (matched : s.Matched) (waiting : s.outstanding = answered :: rest)
    (numeric : message.numeric = some code)
    (answering : code ∈ answered.query.replies ∨ code ∈ answered.query.ends)
    (unlabelled : message.tag (ascii "label") = none)
    (unbatched : message.tag (ascii "batch") = none) (settled : s.router.joining = [])
    (inTime : s.InTime now)
    (unmistakable : s.Unmistakable (.numeric message raw names ownNick now)) :
    ∃ first later, s.router.pending = first :: later ∧
      s.router.classify message raw names ownNick now =
        (.reply (withoutFramingTags raw) answered.origin, { s.router.expire now with
            pending := if code ∈ answered.query.ends then later else first :: later }) := by
  have asked := matched.paired
  rw [waiting] at asked
  obtain ⟨first, later, ⟨sameOrigin, sameQuery⟩, -, pending⟩ := List.forall₂_cons_right_iff.mp asked
  have live : (s.router.expire now).pending = first :: later :=
    (expire_pending inTime).trans pending
  have expected : first.answers code = true := by
    rcases answering with reply | ends
    · simp [Pending.answers, sameQuery, reply]
    · simp [Pending.answers, sameQuery, ends]
  have apart := unmistakable code numeric first (by rw [pending]; rfl)
  rw [pending] at apart
  have attributed : (s.router.expire now).attribution code message names = some 0 :=
    attribution_eq_zero live expected apart
  have ordered : (s.router.expire now).pending.Pairwise (·.id < ·.id) := by
    rw [expire_pending inTime]
    exact matched.ordered
  have listed : answered.query ∈ queries := matched.listed answered (by simp [waiting])
  refine ⟨first, later, pending, ?_⟩
  rw [classify_numeric numeric unlabelled unbatched settled]
  simp only [classifyUnlabelled, numeric,
    answerToNumeric_first live ordered attributed, endedBy_iff listed answering sameQuery,
    sameOrigin, elim_some]

theorem State.Matched.numeric (matched : s.Matched)
    (unmistakable : s.Unmistakable (.numeric message raw names ownNick now))
    (step : upstream.step s (.numeric message raw names ownNick now) = some s') :
    s'.Matched ∧ ∃ line origin, s'.routed = s.routed ++ [(.reply line origin, origin)] := by
  obtain ⟨answered, isFirst, step⟩ := bind_eq_some_iff.mp step
  obtain ⟨code, isCode, step⟩ := bind_eq_some_iff.mp step
  obtain ⟨answering, step⟩ := guard_bind_eq_some.mp step
  obtain ⟨⟨unlabelled, unbatched⟩, step⟩ := guard_bind_eq_some.mp step
  obtain ⟨⟨settled, inTime⟩, step⟩ := guard_bind_eq_some.mp step
  obtain ⟨rest, waiting⟩ := List.head?_eq_some_iff.mp isFirst
  obtain ⟨first, later, pending, result⟩ := matched.classify waiting isCode answering unlabelled
    unbatched settled inTime unmistakable
  rw [result] at step
  cases step
  refine ⟨?_, withoutFramingTags raw, answered.origin, rfl⟩
  by_cases ends : code ∈ answered.query.ends
  · -- the answer is complete, and both lists lose their first
    have asked := matched.paired
    rw [pending, waiting] at asked
    have ordered := pending ▸ matched.ordered
    constructor <;> simp only [ends, if_true, waiting, tail_cons]
    · exact (List.forall₂_cons.mp asked).2
    · exact fun asked mem => matched.listed asked (by simp [waiting, mem])
    · exact (pairwise_cons.mp ordered).2
    · exact fun left mem => matched.counted left (by simp [pending, mem])
  · constructor <;> simp only [ends, if_false, ← pending]
    · exact matched.paired
    · exact matched.listed
    · exact matched.ordered
    · exact matched.counted

/-- One step keeps the queue in order and answers the right attachment. -/
theorem State.Matched.step (matched : s.Matched) (routed : s.Routed) (unmistakable : s.Unmistakable event)
    (step : upstream.step s event = some s') : s'.Matched ∧ s'.Routed := by
  cases event with
  | forward origin line names now =>
    obtain ⟨⟨attached, room, inTime⟩, step⟩ := guard_bind_eq_some.mp step
    obtain ⟨query, parsed, step⟩ := bind_eq_some_iff.mp step
    cases step
    exact ⟨matched.forward parsed attached room inTime, routed⟩
  | numeric message raw names ownNick now =>
    obtain ⟨after, line, origin, added⟩ := matched.numeric unmistakable step
    refine ⟨after, fun result asker mem => ?_⟩
    rw [added] at mem
    rcases mem_append.mp mem with before | last
    · exact routed result asker before
    · obtain ⟨rfl, rfl⟩ := Prod.mk.inj (mem_singleton.mp last)
      exact ⟨line, rfl⟩

/-- Whatever attachments ask and in whatever order, every numeric of an upstream that
answers in order goes to the attachment whose query it answers, as long as each
names a subject of that query or of none that it could be taken for. -/
theorem numerics_go_to_the_asker {events : List Event}
    (run : upstream.Run (fun _ s event => s.Unmistakable event) events s) : s.Routed := by
  have start : upstream.init.Matched ∧ upstream.init.Routed :=
    ⟨⟨.nil, by simp [upstream], .nil, by simp [upstream, new]⟩, by
      simp [State.Routed, upstream]⟩
  have kept : s.Matched ∧ s.Routed :=
    run.invariant (P := fun _ s => s.Matched ∧ s.Routed) start
      fun _ _ _ _ held unmistakable step => held.1.step held.2 unmistakable step
  exact kept.2

/-- A numeric as the upstream writes it, to the nick `me`. -/
def reply (code : String) (params : List String) : Event :=
  .numeric ⟨[], some (ascii "s"), ascii code, (("me" :: params).map ascii)⟩ (ascii code) .default
    (ascii "me") 0

def query (origin : ℕ) (line : String) : Event :=
  .forward origin (ascii line) .default 0

theorem numerics_go_to_the_asker_of_who_and_list :
    ∃ s : State, s.routed.map Prod.snd = [1, 1, 2, 2, 2] ∧ s.Routed := by
  let events := [query 1 "WHO #a", query 2 "LIST",
    reply "352" ["#a", "u", "h", "s", "nick", "H", "0 real"], reply "315" ["#a", "End of WHO"],
    reply "321" ["Channel", "Users"], reply "322" ["#x", "3", "topic"], reply "323" ["End of LIST"]]
  let checked := upstream.restrict fun s event => decide (s.Unmistakable event)
  have observed : (checked.exec events).map (fun s => s.routed.map Prod.snd) =
      some [1, 1, 2, 2, 2] := by decide +kernel
  obtain ⟨s, replay, origins⟩ := System.exists_run observed
  have run := replay.of_restrict.mono
    fun _ _ _ meets => of_decide_eq_true meets
  exact ⟨s, origins, numerics_go_to_the_asker run⟩

/-- Two attachments ask, and both answers come whole. -/
def whoOfANick : List Event :=
  [query 1 "WHO bob", query 2 "WHO #chan",
    reply "352" ["#chan", "u", "h", "s", "bob", "H", "0 real"], reply "315" ["bob", "End of WHO"],
    reply "352" ["#chan", "u", "h", "s", "eve", "H", "0 real"], reply "315" ["#chan", "End of WHO"]]

/-- The first line of the answer to `WHO bob` names the channel that the second
attachment asks about, and goes to it with the end; the second answer then has no
query left, and goes to everyone. -/
theorem who_of_a_nick_goes_astray :
    ∃ s, upstream.Run System.anyStep whoOfANick s ∧ s.outstanding = [] ∧
      s.routed = [(.reply (ascii "352") 2, 1), (.reply (ascii "315") 2, 1),
        (.session (ascii "352") none, 2), (.session (ascii "315") none, 2)] ∧ ¬ s.Routed := by
  have observed : (upstream.exec whoOfANick).map (fun s => (s.outstanding, s.routed)) =
      some ([], [(.reply (ascii "352") 2, 1), (.reply (ascii "315") 2, 1),
        (.session (ascii "352") none, 2), (.session (ascii "315") none, 2)]) := by decide +kernel
  obtain ⟨s, replay, seen⟩ := System.exists_run observed
  obtain ⟨outstanding, routed⟩ := Prod.mk.inj seen
  refine ⟨s, replay, outstanding, routed, fun rightly => ?_⟩
  obtain ⟨line, same⟩ := rightly _ _ (by rw [routed]; exact mem_cons_self)
  cases same

end E6irc.Bouncer.Routing
