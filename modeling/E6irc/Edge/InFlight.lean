import E6irc.Edge.SessionLink

/-!
# Two accounts of one send queue

The core admits a line by what it counts in flight, the edge's buffer by what it
holds.  `Session.Flowing` ties the two while the core's end is in use: the core
counts the buffered bytes and those taken but not reported, so the buffer holds
no more than the core counts and never refuses what the core admitted.
-/

namespace E6irc.Edge

open Base Queue List Shared

/-- A line the core sends is not empty. -/
def Event.NonEmpty : Event → Prop
  | .output line => line.bytes ≠ []
  | _ => True

instance : (e : Event) → Decidable e.NonEmpty
  | .output line => inferInstanceAs (Decidable (line.bytes ≠ []))
  | .take _ | .tryTake | .written _ | .kill _ | .dropCore => .isTrue trivial

def bytesOf (lines : List Output) : ℕ :=
  (lines.map weight).sum

namespace Session

/-- The lines in the buffer, oldest first. -/
def buffered (s : Session) : List Output :=
  s.buffer.buf.map fun entry => entry.1.payload

/-- What holds while the core's end is in use. -/
structure Flowing (sendq : SendqBytes) (s : Session) : Prop where
  agreed : s.written = s.edgeWritten
  balance : s.sent = s.buffer.load + s.edgeTaken
  sent_lt : s.sent < 2 ^ 64
  weights : ∀ entry ∈ s.buffer.buf, entry.2 = weight entry.1.payload
  bounded : s.sent - s.written ≤ sendq.bytes ∨ ∃ line ∈ s.admitted, s.sent - s.written ≤ weight line
  intact : s.discarded = [] ∧ s.final = none

structure Sound (sendq : SendqBytes) (s : Session) : Prop where
  alive : s.buffer.receiverAlive = true
  fifo : s.buffer.mode = .fifo
  account : s.buffer.Bounded sendq.buffer
  reported : s.edgeWritten ≤ s.edgeTaken
  taken : s.edgeTaken = bytesOf s.taken
  answers : .error .edgeOverrun ∉ s.answers
  kept : ∃ kept, s.admitted = kept ++ s.discarded ∧ s.taken ++ s.buffered = kept ++ s.final.toList
  flowing : s.core = .live → s.Flowing sendq

variable {sendq : SendqBytes} {s s' : Session}

/-- The bytes buffered are the load, while no line is empty. -/
theorem Flowing.load_eq (flowing : s.Flowing sendq) (account : s.buffer.Bounded sendq.buffer) :
    s.buffer.load = bytesOf s.buffered := by
  rw [account.exact, State.weight, bytesOf, buffered, map_map]
  congr 1
  exact map_congr_left flowing.weights

theorem Flowing.inFlight_eq (flowing : s.Flowing sendq) (reported : s.edgeWritten ≤ s.edgeTaken) :
    s.inFlight = some (s.buffer.load + (s.edgeTaken - s.edgeWritten)) := by
  have balance := flowing.balance
  have agreed := flowing.agreed
  rw [inFlight, if_pos (by omega)]
  congr 1
  omega

/-- What the core's account admits, the buffer's admits. -/
theorem fits_of_le {load inFlight weight capacity : ℕ} (le : load ≤ inFlight)
    (admitted : fits inFlight weight capacity) : fits load weight capacity := by
  rw [fits_iff] at admitted ⊢
  unfold saturatingAdd at *
  omega

/-- A line over the bound changes nothing; any other enters the buffer. -/
theorem output_cases {line : Output} {answer : Except OutputRefused Sent} (sound : s.Sound sendq)
    (live : s.core = .live) (nonempty : 0 < weight line)
    (sending : s.output sendq line = some (answer, s')) :
    (answer = .error .overBound ∧ s' = s) ∨
      (answer = .ok .buffered ∧ s.sent + weight line < 2 ^ 64 ∧
        fits (s.buffer.load + (s.edgeTaken - s.edgeWritten)) (weight line) sendq.bytes ∧
        s.buffer.admits (weight line) sendq.bytes ∧
        s' = { s with
          buffer := (sendq.buffer.accept s.buffer line (weight line)).2.2
          sent := s.sent + weight line
          admitted := s.admitted ++ [line] }) := by
  have own : sendq.buffer.weightOf line = weight line := max_eq_left nonempty
  obtain ⟨inFlight, isInFlight, sending⟩ := Option.bind_eq_some_iff.mp sending
  rw [(sound.flowing live).inFlight_eq sound.reported] at isInFlight
  cases isInFlight
  split at sending
  · cases sending
    exact .inl ⟨rfl, rfl⟩
  rename_i room
  have room : fits (s.buffer.load + (s.edgeTaken - s.edgeWritten)) (weight line) sendq.bytes := by
    simpa using room
  have admitted : s.buffer.admits (weight line) sendq.bytes := fits_of_le (by omega) room
  rcases sendq.buffer.tryPush_cases s.buffer line with
    ⟨gone, _⟩ | ⟨_, full, _⟩ | ⟨_, _, waker, pushed⟩
  · rw [sound.alive] at gone
    cases gone
  · rw [own] at full
    exact absurd admitted (by simpa [SendqBytes.buffer] using full)
  simp only [pushed] at sending
  obtain ⟨small, sending⟩ := guard_bind_eq_some.mp sending
  cases sending
  rw [own]
  exact .inr ⟨rfl, small, room, admitted, rfl⟩

theorem Sound.output {line : Output} {answer : Except OutputRefused Sent} (sound : s.Sound sendq)
    (live : s.core = .live) (nonempty : 0 < weight line)
    (sending : s.output sendq line = some (answer, s')) :
    Sound sendq { s' with answers := s.answers ++ [answer] } := by
  rcases output_cases sound live nonempty sending with
    ⟨rfl, rfl⟩ | ⟨rfl, small, room, admitted, rfl⟩
  · exact { sound with
      answers := by simpa using sound.answers
      flowing := fun live => { sound.flowing live with } }
  · obtain ⟨agreed, balance, _, weights, _, intact⟩ := sound.flowing live
    have moves : Moves sendq.buffer s.buffer _ (.accepted line (weight line)) :=
      accept_moves line admitted
    have total : s.buffer.load + weight line ≤ usizeMax := by
      unfold usizeMax
      omega
    have account := moves.bounded sound.account fun payload weight isAccept => by
      cases isAccept
      exact ⟨(max_eq_left nonempty).symm, total⟩
    have load : (sendq.buffer.accept s.buffer line (weight line)).2.2.load =
        s.buffer.load + weight line := by
      rw [account.exact, sound.account.exact, State.weight, accept_buf]
      simp [State.weight]
    refine
      { alive := by simpa using sound.alive
        fifo := (moves.mode_eq rfl).trans sound.fifo
        account
        reported := sound.reported
        taken := sound.taken
        answers := by simpa using sound.answers
        kept := ?_
        flowing := fun _ => ?_ }
    · obtain ⟨kept, sent, held⟩ := sound.kept
      rw [intact.1, append_nil] at sent
      rw [intact.2] at held
      refine ⟨kept ++ [line], by simp [sent, intact.1], ?_⟩
      simp only [buffered, accept_buf, map_append] at held ⊢
      rw [← append_assoc, held]
      simp [intact.2]
    · refine ⟨agreed, ?_, small, ?_, ?_, intact⟩
      · simp only [load]
        omega
      · intro entry among
        rw [accept_buf] at among
        rcases mem_append.mp among with old | new
        · exact weights entry old
        · rw [mem_singleton.mp new]
      · dsimp only
        have reported := sound.reported
        rcases fits_iff.mp room with nothing | within
        · exact .inr ⟨line, by simp, by omega⟩
        left
        unfold saturatingAdd at within
        unfold usizeMax at within
        omega

/-- A change of the buffer that leaves its lines alone. -/
theorem Sound.buffer_still (sound : s.Sound sendq) {buffer : Queue.State Output}
    (moves : Moves sendq.buffer s.buffer buffer .still)
    (alive : buffer.receiverAlive = s.buffer.receiverAlive) : Sound sendq { s with buffer } := by
  have account := moves.bounded sound.account (by rintro _ _ ⟨⟩)
  have mode := moves.mode_eq rfl
  cases moves with | still buf load =>
  refine { sound with
    alive := alive.trans sound.alive
    fifo := mode.trans sound.fifo
    account
    kept := ?_
    flowing := fun live => ?_ }
  · simp only [buffered, buf]
    exact sound.kept
  have flowing := sound.flowing live
  refine { flowing with balance := ?_, weights := ?_ }
  · rw [load]
    exact flowing.balance
  · rw [buf]
    exact flowing.weights

/-- The oldest line moves from the buffer to the writer. -/
theorem Sound.served (sound : s.Sound sendq) {envelope : Envelope Output}
    {rest : Queue.State Output} (serving : s.buffer.dequeue = some (envelope, rest))
    (step : s.took (sendq.buffer.release rest).2 (some envelope) = some s') : s'.Sound sendq := by
  obtain ⟨_, rfl⟩ := guard_some_eq_some.mp step
  obtain ⟨weight', moves, same⟩ := sendq.buffer.dequeue_moves s.buffer serving
  have account := moves.bounded sound.account (by rintro _ _ ⟨⟩)
  have mode := moves.mode_eq rfl
  have alive : (sendq.buffer.release rest).2.receiverAlive = s.buffer.receiverAlive := by
    rw [release_receiverAlive, same]
  cases moves with | popped picked =>
  rcases State.next_eq_some picked with ⟨_, buf⟩ | ⟨lifo, _⟩
  · have total : s.buffer.load = weight' + (sendq.buffer.release rest).2.load := by
      rw [sound.account.exact, account.exact, State.weight, State.weight, buf]
      simp
    refine
      { alive := alive.trans sound.alive
        fifo := mode.trans sound.fifo
        account
        reported := sound.reported.trans (Nat.le_add_right _ _)
        taken := ?_
        answers := sound.answers
        kept := ?_
        flowing := fun live => ?_ }
    · rw [sound.taken]
      simp [bytesOf]
    · obtain ⟨kept, sent, held⟩ := sound.kept
      refine ⟨kept, sent, ?_⟩
      rw [← held]
      simp [buffered, buf]
    · have flowing := sound.flowing live
      have own : weight' = weight envelope.payload := by
        refine flowing.weights (envelope, weight') ?_
        rw [buf]
        exact mem_cons_self
      refine { flowing with balance := ?_, weights := ?_ }
      · have balance := flowing.balance
        dsimp only
        omega
      · intro entry among
        refine flowing.weights entry ?_
        rw [buf]
        exact .tail _ among
  · rw [sound.fifo] at lifo
    cases lifo

theorem Sound.tryTake (sound : s.Sound sendq) (step : s.step sendq .tryTake = some s') :
    s'.Sound sendq := by
  simp only [Session.step] at step
  cases serving : s.buffer.dequeue with
  | none =>
    simp only [tryPop, serving] at step
    cases step
    exact sound
  | some next =>
    simp only [tryPop, serving] at step
    exact sound.served serving step

theorem Sound.take (sound : s.Sound sendq) {waker : Waker}
    (step : s.step sendq (.take waker) = some s') : s'.Sound sendq := by
  simp only [Session.step] at step
  cases serving : s.buffer.dequeue with
  | some next =>
    simp only [pollPop, serving] at step
    exact sound.served serving step
  | none =>
    simp only [pollPop, serving] at step
    split at step
    · cases step
      exact sound
    · cases step
      exact sound.buffer_still (.still rfl rfl rfl rfl) rfl

theorem Sound.report (sound : s.Sound sendq) {bytes : ℕ} (step : s.report bytes = some s') :
    s'.Sound sendq := by
  obtain ⟨within, rfl⟩ := guard_some_eq_some.mp step
  refine { sound with reported := within, flowing := fun live => ?_ }
  have flowing := sound.flowing live
  refine { flowing with agreed := ?_, bounded := ?_ }
  · simp only [flowing.agreed]
  · rcases flowing.bounded with small | ⟨line, sent, small⟩
    · exact .inl (by dsimp only; omega)
    · exact .inr ⟨line, sent, by dsimp only; omega⟩

/-- The emptied buffer takes the last line, whatever its length. -/
theorem kill_eq {line : Output} (sound : s.Sound sendq) (step : s.kill sendq line = some s') :
    ∃ killedAt, s' = { s with
      buffer := (sendq.buffer.accept (sendq.buffer.takeQueued s.buffer).2.2 line
        (sendq.buffer.weightOf line)).2.2
      core := .killed
      discarded := s.buffered
      killedAt
      final := some line } := by
  have empty : (sendq.buffer.takeQueued s.buffer).2.2.load = 0 := by
    cases sendq.buffer.takeQueued_moves s.buffer with | emptied _ load => exact load
  rcases sendq.buffer.tryPush_cases (sendq.buffer.takeQueued s.buffer).2.2 line with
    ⟨gone, _⟩ | ⟨_, full, _⟩ | ⟨_, _, waker, pushed⟩
  · simp [takeQueued, sound.alive] at gone
  · simp [State.admits, fits, empty] at full
  · simp only [Session.kill, pushed] at step
    exact ⟨_, (Option.some.inj step).symm⟩

theorem Sound.kill {line : Output} (sound : s.Sound sendq) (live : s.core = .live)
    (step : s.kill sendq line = some s') : s'.Sound sendq := by
  obtain ⟨killedAt, rfl⟩ := kill_eq sound step
  have emptied := sendq.buffer.takeQueued_moves s.buffer
  have account := emptied.bounded sound.account (by rintro _ _ ⟨⟩)
  have mode := emptied.mode_eq rfl
  cases emptied with | emptied buf load =>
  have admitted : (sendq.buffer.takeQueued s.buffer).2.2.admits (sendq.buffer.weightOf line)
      sendq.buffer.capacity := by
    simp [State.admits, fits, load]
  have moves := accept_moves line admitted
  refine
    { alive := by simpa [takeQueued] using sound.alive
      fifo := ((moves.mode_eq rfl).trans mode).trans sound.fifo
      account := moves.bounded account fun payload weight isAccept => ?_
      reported := sound.reported
      taken := sound.taken
      answers := sound.answers
      kept := ?_
      flowing := fun going => by cases going }
  · cases isAccept
    rw [load, Nat.zero_add]
    exact ⟨rfl, (sendq.buffer.weightOf_sized line).2⟩
  · obtain ⟨kept, sent, held⟩ := sound.kept
    obtain ⟨nothing, none⟩ := (sound.flowing live).intact
    rw [nothing, append_nil] at sent
    rw [none, Option.toList_none, append_nil] at held
    refine ⟨s.taken, sent.trans held.symm, ?_⟩
    simp [buffered, buf]

theorem Sound.dropCore (sound : s.Sound sendq) (step : s.step sendq .dropCore = some s') :
    s'.Sound sendq := by
  obtain ⟨_, rfl⟩ := guard_some_eq_some.mp step
  have still : Moves sendq.buffer s.buffer s.buffer.dropSender.2 .still ∧
      s.buffer.dropSender.2.receiverAlive = s.buffer.receiverAlive := by
    unfold State.dropSender
    dsimp only
    split
    · exact ⟨.still rfl rfl rfl rfl, rfl⟩
    · exact ⟨.still rfl rfl rfl rfl, rfl⟩
  exact { sound.buffer_still still.1 still.2 with flowing := nofun }

theorem Sound.step {e : Event} (sound : s.Sound sendq) (nonempty : e.NonEmpty)
    (step : s.step sendq e = some s') : s'.Sound sendq := by
  cases e with
  | output line =>
    obtain ⟨live, step⟩ := guard_bind_eq_some.mp step
    obtain ⟨⟨answer, after⟩, sending, step⟩ := Option.bind_eq_some_iff.mp step
    cases step
    exact sound.output live (length_pos_iff.mpr nonempty) sending
  | take waker => exact sound.take step
  | tryTake => exact sound.tryTake step
  | written bytes => exact sound.report step
  | kill line =>
    obtain ⟨live, step⟩ := guard_bind_eq_some.mp step
    exact sound.kill live step
  | dropCore => exact sound.dropCore step

theorem sound_init (sendq : SendqBytes) : (session sendq).init.Sound sendq where
  alive := rfl
  fifo := rfl
  account := ⟨by simp [State.WeighedAs, session], rfl, Nat.zero_le _, .inl (Nat.zero_le _)⟩
  reported := le_rfl
  taken := rfl
  answers := by simp [session]
  kept := ⟨[], rfl, rfl⟩
  flowing _ := ⟨rfl, rfl, by simp [session], by simp [session], .inl (Nat.zero_le _), rfl, rfl⟩

end Session

/-- The two accounts agree, in every state of every run in which the core sends
no empty line. -/
theorem the_two_accounts_agree {sendq : SendqBytes} {es : List Event} {s : Session}
    (run : (session sendq).Run (fun _ _ e => e.NonEmpty) es s) :
    -- The edge's buffer never refused a line the core's account admitted.
    .error .edgeOverrun ∉ s.answers ∧
    -- Until the core's end sends its last, what is in flight is what is buffered
    -- and what is taken but not reported written, and is bounded.
    (s.core = .live → ∃ inFlight, s.inFlight = some inFlight ∧
      s.edgeWritten ≤ bytesOf s.taken ∧
      inFlight = bytesOf s.buffered + (bytesOf s.taken - s.edgeWritten) ∧
      (inFlight ≤ sendq.bytes ∨ ∃ line ∈ s.admitted, inFlight ≤ weight line)) ∧
    -- Admitted lines are taken once each and in order, up to those a kill discarded;
    -- after them comes the line of the kill.
    ∃ kept, s.admitted = kept ++ s.discarded ∧
      s.taken ++ s.buffered = kept ++ s.final.toList ∧
      (s.core = .live → s.discarded = [] ∧ s.final = none) := by
  have sound := run.invariant (P := fun _ s => s.Sound sendq) (Session.sound_init sendq)
    fun _ _ _ _ sound nonempty step => sound.step nonempty step
  refine ⟨sound.answers, fun live => ?_, ?_⟩
  · have flowing := sound.flowing live
    have reported := sound.reported
    rw [sound.taken] at reported
    refine ⟨_, flowing.inFlight_eq sound.reported, reported, ?_, ?_⟩
    · rw [flowing.load_eq sound.account, sound.taken]
    have balance := flowing.balance
    have agreed := flowing.agreed
    have edge := sound.reported
    have same : s.buffer.load + (s.edgeTaken - s.edgeWritten) = s.sent - s.written := by omega
    rw [same]
    exact flowing.bounded
  · obtain ⟨kept, sent, held⟩ := sound.kept
    exact ⟨kept, sent, held, fun live => (sound.flowing live).intact⟩

/-- A line of `bytes` bytes, for the run below. -/
def lineOf (bytes : Fin 8) : Output where
  bytes := List.replicate bytes 120
  length_le := by
    rw [length_replicate]
    exact bytes.isLt.le.trans (by decide)

/-- A line is taken and reported in part, and the next fills the bound; the kill
discards it and sends a line longer than the bound. -/
theorem the_two_accounts_agree_of_kill :
    ∃ s killed, (session ⟨5, by decide, by decide⟩).Run (fun _ _ e => e.NonEmpty)
        [.output (lineOf 3), .output (lineOf 7), .tryTake, .written 2, .output (lineOf 4)] s ∧
      (session ⟨5, by decide, by decide⟩).Run (fun _ _ e => e.NonEmpty)
        [.output (lineOf 3), .output (lineOf 7), .tryTake, .written 2, .output (lineOf 4),
          .kill (lineOf 6), .take 0] killed ∧
      s.core = .live ∧ s.answers = [.ok .buffered, .error .overBound, .ok .buffered] ∧
      s.inFlight = some (bytesOf s.buffered + (bytesOf s.taken - s.edgeWritten)) ∧
      killed.taken = [lineOf 3, lineOf 6] ∧
      ∃ kept, killed.admitted = kept ++ killed.discarded ∧
        killed.taken ++ killed.buffered = kept ++ killed.final.toList := by
  have live : (((session ⟨5, by decide, by decide⟩).restrict fun _ e => decide e.NonEmpty).exec
      [.output (lineOf 3), .output (lineOf 7), .tryTake, .written 2, .output (lineOf 4)]).map
      (fun s => (s.core, s.answers)) =
      some (.live, [.ok .buffered, .error .overBound, .ok .buffered]) := by decide +kernel
  have dead : (((session ⟨5, by decide, by decide⟩).restrict fun _ e => decide e.NonEmpty).exec
      [.output (lineOf 3), .output (lineOf 7), .tryTake, .written 2, .output (lineOf 4),
        .kill (lineOf 6), .take 0]).map (fun s => s.taken) = some [lineOf 3, lineOf 6] := by
    decide +kernel
  obtain ⟨s, reached, seen⟩ := System.exists_run live
  obtain ⟨core, answers⟩ := Prod.mk.inj seen
  obtain ⟨killed, reachedKilled, taken⟩ := System.exists_run dead
  have run := reached.of_restrict.mono
    fun _ _ _ meets => of_decide_eq_true meets
  have runKilled := reachedKilled.of_restrict.mono
    fun _ _ _ meets => of_decide_eq_true meets
  obtain ⟨_, inFlight, _⟩ := the_two_accounts_agree run
  obtain ⟨bytes, isInFlight, _, rfl, _⟩ := inFlight core
  obtain ⟨_, _, kept, sent, held, _⟩ := the_two_accounts_agree runKilled
  exact ⟨s, killed, run, runKilled, core, answers, isInFlight, taken, kept, sent, held⟩

end E6irc.Edge
