import E6irc.Queue.Waiters

/-!
# The account of a queue

What a queue's users can rely on, over any run in which no addition to the load
overflows: the load is the weight buffered and stays within the capacity, but
for a single event that is heavier; events are numbered in the order of
acceptance and each is buffered, popped or taken back; a queue that is always
FIFO serves them in order, and an adaptive one is in the mode its watermarks
say.
-/

namespace E6irc.Queue

open Base List World State Envelope

variable {α : Type}

/-- Adding the event `e` offers to the load stays within a `usize`. -/
def World.NoOverflow (shared : Shared α) (w : World α) (e : Event α) : Prop :=
  ∀ weight ∈ w.offering shared e, w.queue.admits weight shared.capacity →
    w.queue.load + weight ≤ usizeMax

instance (shared : Shared α) (w : World α) (e : Event α) : Decidable (w.NoOverflow shared e) :=
  inferInstanceAs (Decidable (∀ weight ∈ w.offering shared e, _ → _))

/-! ## The mode and the order of service -/

/-- The watermarks the mode of an adaptive queue answers to. -/
def State.WithinWatermarks (shared : Shared α) (s : State α) : Prop :=
  ∀ high low, shared.policy = .adaptiveLifo high low →
    (s.mode = .lifo → low < s.load) ∧ (s.mode = .fifo → s.load < high)

variable {shared : Shared α}

attribute [local simp] State.weight Policy.after

theorem Policy.after_within {mode : Mode} {load high low : ℕ}
    (policy : shared.policy = .adaptiveLifo high low) :
    (shared.policy.after mode load = .lifo → low < load) ∧
      (shared.policy.after mode load = .fifo → load < high) := by
  have ordered := (shared.watermarks high low policy).1
  rw [policy]
  cases mode with
  | fifo =>
    by_cases above : high ≤ load
    · simp [above]
      omega
    · simp [above]
      omega
  | lifo =>
    by_cases below : load ≤ low
    · simp [below]
      omega
    · simp [below]
      omega

variable {change : Change α} {s s' : State α}

theorem Moves.within (moves : Moves shared s s' change) (within : s.WithinWatermarks shared) :
    s'.WithinWatermarks shared := by
  intro high low policy
  cases moves with
  | still _ load _ mode =>
    rw [load, mode]
    exact within high low policy
  | accepted _ _ _ _ mode | popped _ _ _ mode =>
    rw [mode]
    exact Policy.after_within policy
  | emptied _ load _ mode =>
    rw [mode, load]
    exact Policy.after_within policy

/-- A FIFO queue stays in FIFO mode. -/
theorem Moves.mode_eq
    (moves : Moves shared s s' change) (fifo : shared.policy = .fifo) : s'.mode = s.mode := by
  cases moves with
  | still _ _ _ mode => exact mode
  | accepted _ _ _ _ mode | popped _ _ _ mode | emptied _ _ _ mode => rw [mode, fifo]; rfl

/-! ## The load -/

/-- Buffered events keep the weights they were admitted at. -/
def State.WeighedAs (shared : Shared α) (s : State α) : Prop :=
  ∀ entry ∈ s.buf, entry.2 = shared.weightOf entry.1.payload

/-- The load is exact, and within the capacity but for a single event. -/
structure State.Bounded (shared : Shared α) (s : State α) : Prop where
  weighedAs : s.WeighedAs shared
  exact : s.load = s.weight
  word : s.weight ≤ usizeMax
  bounded : s.load ≤ shared.capacity ∨ s.buf.length = 1

theorem State.Bounded.buf_nil (bounded : s.Bounded shared) (empty : s.load = 0) : s.buf = [] := by
  cases held : s.buf with
  | nil => rfl
  | cons entry rest =>
    have positive := (shared.weightOf_sized entry.1.payload).1
    rw [← bounded.weighedAs entry (by simp [held])] at positive
    have total : s.weight = entry.2 + (rest.map Prod.snd).sum := by simp [held]
    have exact_load := bounded.exact
    omega

theorem Moves.bounded (moves : Moves shared s s' change) (bounded : s.Bounded shared)
    (accepts : ∀ payload weight, change = .accepted payload weight →
      weight = shared.weightOf payload ∧ s.load + weight ≤ usizeMax) : s'.Bounded shared := by
  have exact_load := bounded.exact
  have word := bounded.word
  cases moves with
  | still buf load =>
    refine ⟨?_, ?_, ?_, ?_⟩
    · rw [WeighedAs, buf]
      exact bounded.weighedAs
    · rw [load, exact_load, State.weight, State.weight, buf]
    · rwa [State.weight, buf]
    · rw [load, buf]
      exact bounded.bounded
  | @accepted payload weight admitted buf load =>
    obtain ⟨own, room⟩ := accepts payload weight rfl
    have total : s'.weight = s.weight + weight := by simp [buf]
    have sum : s'.load = s.load + weight := by
      rw [load, wrappingAdd, Nat.mod_eq_of_lt]
      unfold usizeMax at room
      omega
    refine ⟨?_, by omega, by omega, ?_⟩
    · intro entry among
      rw [buf] at among
      rcases mem_append.mp among with old | new
      · exact bounded.weighedAs entry old
      · rw [mem_singleton.mp new]
        exact own
    · rcases fits_iff.mp admitted with empty | within
      · right
        rw [buf, bounded.buf_nil empty]
        rfl
      · left
        rw [sum]
        unfold saturatingAdd at within
        omega
  | @popped envelope weight served load =>
    have split := next_perm served
    have total : s.weight = weight + s'.weight := (split.map Prod.snd).sum_eq
    have length := split.length_eq
    have difference : s'.load = s'.weight := by
      rw [load, wrappingSub, exact_load, total]
      unfold usizeMax at word
      omega
    refine ⟨fun entry among => bounded.weighedAs entry (split.mem_iff.mpr (.tail _ among)),
      difference, by omega, .inl ?_⟩
    rcases bounded.bounded with within | single
    · omega
    rw [length_cons] at length
    have none : s'.buf = [] := eq_nil_of_length_eq_zero (by omega)
    rw [difference, State.weight, none]
    exact Nat.zero_le _
  | emptied buf load =>
    refine ⟨?_, ?_, ?_, .inl ?_⟩
    · simp [WeighedAs, buf]
    · simp [load, buf]
    · simp [buf]
    · simp [load]

/-! ## Where the events are -/

namespace World

/-- Events are numbered as they are accepted, and each is in one place. -/
structure Kept (w : World α) : Prop where
  numbered : w.accepted.map seq = List.range w.queue.nextSeq
  located : w.accepted.Perm (w.queue.buf.map Prod.fst ++ (w.popped ++ w.takenBack))
  returned : w.returned = w.takenBack.map payload
  refused : ∀ offer ∈ w.offers, ∀ back, offer.2 = .error back → back = offer.1

theorem Kept.seq_lt {w : World α} (kept : w.Kept) {envelope : Envelope α}
    (among : envelope ∈ w.queue.buf.map Prod.fst ++ (w.popped ++ w.takenBack)) :
    envelope.seq < w.queue.nextSeq := by
  have number := mem_map_of_mem (f := seq) (kept.located.mem_iff.mpr among)
  rw [kept.numbered] at number
  exact mem_range.mp number

theorem accepted_refused (offers : List (α × Except α ℕ)) (refused : List α) :
    (offers ++ refused.map fun payload => (payload, Except.error payload)).filterMap envelope =
      offers.filterMap envelope := by
  rw [filterMap_append, filterMap_map]
  simp [Function.comp_def, envelope]

end World

variable {w w' : World α} {e : Event α}

theorem Logs.kept (logs : Logs shared w e w' change) (moves : Moves shared w.queue w'.queue change)
    (kept : w.Kept) : w'.Kept := by
  obtain ⟨numbered, located, returned, refusals⟩ := kept
  cases logs with
  | still refused offers popped takenBack returned' =>
    cases moves with | still buf _ nextSeq =>
    have accepted : w'.accepted = w.accepted := by
      rw [World.accepted, offers]
      exact accepted_refused w.offers refused
    refine ⟨?_, ?_, ?_, ?_⟩
    · rw [accepted, nextSeq, numbered]
    · rw [accepted, buf, popped, takenBack]
      exact located
    · rw [returned', takenBack, returned]
    rw [offers]
    intro offer among back isBack
    rcases mem_append.mp among with old | new
    · exact refusals offer old back isBack
    · obtain ⟨payload, _, rfl⟩ := mem_map.mp new
      cases isBack
      rfl
  | @accepted payload _ offers popped takenBack returned' =>
    cases moves with | accepted _ buf _ nextSeq =>
    have accepted : w'.accepted = w.accepted ++ [⟨w.queue.nextSeq, payload⟩] := by
      rw [World.accepted, offers, filterMap_append]
      rfl
    refine ⟨?_, ?_, ?_, ?_⟩
    · rw [accepted, nextSeq, map_append, numbered, range_succ]
      rfl
    · rw [accepted, buf, popped, takenBack, map_append, append_assoc]
      exact ((perm_append_singleton _ _).trans (located.cons _)).trans perm_middle.symm
    · rw [returned', takenBack, returned]
    rw [offers]
    intro offer among back isBack
    rcases mem_append.mp among with old | new
    · exact refusals offer old back isBack
    · rw [mem_singleton.mp new] at isBack
      cases isBack
  | @popped envelope weight offers popped takenBack returned' =>
    cases moves with | popped served _ nextSeq =>
    have accepted : w'.accepted = w.accepted := by rw [World.accepted, offers, World.accepted]
    refine ⟨?_, ?_, ?_, ?_⟩
    · rw [accepted, nextSeq, numbered]
    · rw [accepted, popped, takenBack, append_assoc, ← append_assoc]
      calc w.accepted.Perm _ := located
        List.Perm _ (envelope :: w'.queue.buf.map Prod.fst ++ (w.popped ++ w.takenBack)) :=
          ((next_perm served).map Prod.fst).append_right _
        _ = envelope :: ((w'.queue.buf.map Prod.fst ++ w.popped) ++ w.takenBack) := by simp
        List.Perm _ _ := perm_middle.symm
    · rw [returned', takenBack, returned]
    · rw [offers]
      exact refusals
  | emptied offers popped takenBack returned' =>
    cases moves with | emptied buf _ nextSeq =>
    have accepted : w'.accepted = w.accepted := by rw [World.accepted, offers, World.accepted]
    refine ⟨?_, ?_, ?_, ?_⟩
    · rw [accepted, nextSeq, numbered]
    · rw [accepted, buf, popped, takenBack, map_nil, nil_append, ← append_assoc]
      exact located.trans perm_append_comm
    · rw [returned', takenBack, returned, map_append, map_map]
      rfl
    · rw [offers]
      exact refusals

/-- Events leave a queue that stays FIFO in the order of their numbers. -/
structure World.InOrder (w : World α) : Prop where
  mode : w.queue.mode = .fifo
  ordered : ((w.popped ++ w.queue.buf.map Prod.fst).map seq).Pairwise (· < ·)

theorem Logs.inOrder
    (logs : Logs shared w e w' change) (moves : Moves shared w.queue w'.queue change)
    (fifo : shared.policy = .fifo) (kept : w.Kept) (inOrder : w.InOrder) : w'.InOrder := by
  obtain ⟨mode, ordered⟩ := inOrder
  refine ⟨(moves.mode_eq fifo).trans mode, ?_⟩
  rw [map_append] at ordered
  cases logs with
  | still _ _ popped =>
    cases moves with | still buf =>
    rw [popped, buf, map_append]
    exact ordered
  | accepted _ _ popped =>
    cases moves with | accepted _ buf =>
    rw [popped, buf, map_append, map_append, map_append, ← append_assoc]
    refine pairwise_append.mpr ⟨ordered, pairwise_singleton _ _, ?_⟩
    intro seq earlier last isLast
    obtain rfl : last = w.queue.nextSeq := by simpa using isLast
    rw [← map_append] at earlier
    obtain ⟨envelope, among, rfl⟩ := mem_map.mp earlier
    refine kept.seq_lt ?_
    rcases mem_append.mp among with popped | buffered
    · exact mem_append_right _ (mem_append_left _ popped)
    · exact mem_append_left _ buffered
  | popped _ popped =>
    cases moves with | popped served =>
    rcases next_eq_some served with ⟨_, buf⟩ | ⟨lifo, _⟩
    · rw [buf] at ordered
      rw [popped, map_append, map_append, append_assoc]
      exact ordered
    · rw [mode] at lifo
      cases lifo
  | emptied _ popped =>
    cases moves with | emptied buf =>
    rw [popped, buf, map_nil, append_nil]
    exact (pairwise_append.mp ordered).1

/-! ## Every run -/

/-- The account of a queue, in one state. -/
structure World.Accounted (shared : Shared α) (w : World α) : Prop where
  bounded : w.queue.Bounded shared
  within : w.queue.WithinWatermarks shared
  kept : w.Kept
  inOrder : shared.policy = .fifo → w.InOrder

theorem World.accounted_init (shared : Shared α) : (system shared).init.Accounted shared where
  bounded := by
    refine ⟨?_, rfl, Nat.zero_le _, .inl (Nat.zero_le _)⟩
    simp [WeighedAs, system]
  within high low policy := by
    have ordered := (shared.watermarks high low policy).1
    simp only [system]
    exact ⟨fun served => (by cases served), fun _ => by omega⟩
  kept := ⟨rfl, .nil, rfl, by simp [system]⟩
  inOrder _ := ⟨rfl, .nil⟩

theorem Stepped.accounted
    (stepped : Stepped shared w e w') (sized : w.Sized shared) (fine : w.NoOverflow shared e)
    (accounted : w.Accounted shared) : w'.Accounted shared := by
  obtain ⟨change, moves, logs⟩ := stepped.moves sized
  obtain ⟨bounded, within, kept, inOrder⟩ := accounted
  refine ⟨moves.bounded bounded fun payload weight isAccept => ?_, moves.within within,
    logs.kept moves kept, fun fifo => logs.inOrder moves fifo kept (inOrder fifo)⟩
  subst isAccept
  cases logs with | accepted offering =>
  cases moves with | accepted admitted =>
  exact ⟨rfl, fine _ offering admitted⟩

/-- The account holds in every state of every run that overflows nowhere. -/
theorem the_account_holds {shared : Shared α} {es : List (Event α)} {w : World α}
    (run : (system shared).Run (fun _ w e => w.NoOverflow shared e) es w) :
    -- The load is the sum of the buffered weights, each the weight of its event,
    w.queue.load = (w.queue.buf.map Prod.snd).sum ∧
    (∀ entry ∈ w.queue.buf, entry.2 = shared.weightOf entry.1.payload) ∧
    -- and is within the capacity, unless a single event is buffered.
    (w.queue.load ≤ shared.capacity ∨ w.queue.buf.length = 1) ∧
    -- Numbers are given consecutively, in the order of acceptance.
    w.accepted.map seq = List.range w.accepted.length ∧
    -- An accepted event is buffered, popped or taken back: one of them, once.
    w.accepted.Perm (w.queue.buf.map Prod.fst ++ (w.popped ++ w.takenBack)) ∧
    ((w.queue.buf.map Prod.fst ++ (w.popped ++ w.takenBack)).map seq).Nodup ∧
    w.returned = w.takenBack.map payload ∧
    -- A refused event comes back to its producer.
    (∀ offer ∈ w.offers, ∀ back, offer.2 = .error back → back = offer.1) ∧
    (shared.policy = .fifo → (w.popped.map seq).Pairwise (· < ·)) ∧
    ∀ high low, shared.policy = .adaptiveLifo high low →
      (w.queue.mode = .lifo → low < w.queue.load) ∧ (w.queue.mode = .fifo → w.queue.load < high) := by
  have both : w.Sized shared ∧ w.Accounted shared :=
    run.invariant (P := fun _ w => w.Sized shared ∧ w.Accounted shared)
      ⟨(sound_init shared).sized, accounted_init shared⟩
      fun _ _ _ _ held fine step => ⟨(stepped step).sized held.1,
        (stepped step).accounted held.1 fine held.2⟩
  obtain ⟨bounded, within, kept, inOrder⟩ := both.2
  have count : w.accepted.length = w.queue.nextSeq := by
    rw [← length_map (f := seq), kept.numbered, length_range]
  refine ⟨bounded.exact, bounded.weighedAs, bounded.bounded, ?_, kept.located, ?_,
    kept.returned, kept.refused, fun fifo => ?_, within⟩
  · rw [count, kept.numbered]
  · have distinct := nodup_range (n := w.queue.nextSeq)
    rw [← kept.numbered] at distinct
    exact (kept.located.map seq).nodup_iff.mp distinct
  · have ordered := (inOrder fifo).ordered
    rw [map_append] at ordered
    exact (pairwise_append.mp ordered).1

theorem four_pos : 0 < 4 := by decide

/-- A queue of capacity 4 that serves the newest first from load 3 down to load 1. -/
def adaptive : Shared ℕ where
  capacity := 4
  policy := .adaptiveLifo 3 1
  weigh payload := min payload usizeMax
  capacity_pos := four_pos
  capacity_le := by decide
  watermarks := by
    rintro high low ⟨⟩
    decide
  weigh_le _ := min_le_right _ _

/-- Three events fit and a fourth is refused; the last is served first, and with
two left the queue is still in the mode its load asks for. -/
theorem the_account_holds_of_lifo :
    ∃ w, (system adaptive).Run (fun _ w e => w.NoOverflow adaptive e)
        [.tryPush 1, .tryPush 1, .tryPush 2, .tryPush 5, .tryPop] w ∧
      w.queue.mode = .lifo ∧ w.popped = [⟨2, 2⟩] ∧ w.queue.load = 2 ∧
      w.accepted.Perm (w.queue.buf.map Prod.fst ++ (w.popped ++ w.takenBack)) ∧
      (w.queue.mode = .lifo → 1 < w.queue.load) := by
  have replay : (((system adaptive).restrict fun w e => decide (w.NoOverflow adaptive e)).exec
      [.tryPush 1, .tryPush 1, .tryPush 2, .tryPush 5, .tryPop]).map
      (fun w => (w.queue.mode, w.popped, w.queue.load)) = some (.lifo, [⟨2, 2⟩], 2) := by
    decide +kernel
  obtain ⟨w, reached, seen⟩ := System.exists_run replay
  obtain ⟨mode, rest⟩ := Prod.mk.inj seen
  obtain ⟨popped, load⟩ := Prod.mk.inj rest
  have run := reached.of_restrict.mono
    fun _ _ _ meets => of_decide_eq_true meets
  obtain ⟨_, _, _, _, located, _, _, _, _, within⟩ := the_account_holds run
  exact ⟨w, run, mode, popped, load, located, (within 3 1 rfl).1⟩

end E6irc.Queue
