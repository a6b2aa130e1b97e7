import E6irc.Queue.State

/-!
# What an operation does to the buffer

Every operation of the queue leaves the buffer as it is, or accepts one event
at the end, or serves the one the mode picks, or empties it.  `Moves` says
which, with what happens to the load, the numbering and the mode; the places in
the line of waiting producers are not part of it.

`State.Weighed` ties the load to the buffered weights: their sum, as far as a
`usize` holds it.
-/

namespace E6irc.Queue

variable {α : Type}

/-! ## The mode -/

/-- The mode after a change that leaves `load` buffered. -/
def Policy.after : Policy → Mode → ℕ → Mode
  | .fifo, mode, _ => mode
  | .adaptiveLifo high _, .fifo, load => if high ≤ load then .lifo else .fifo
  | .adaptiveLifo _ low, .lifo, load => if load ≤ low then .fifo else .lifo

namespace State

variable (state : State α) (policy : Policy)

attribute [local simp] Policy.after updateMode

theorem updateMode_eq :
    ∃ switches, state.updateMode policy =
      { state with mode := policy.after state.mode state.load, modeSwitches := switches } := by
  cases policy with
  | fifo => exact ⟨state.modeSwitches, rfl⟩
  | adaptiveLifo high low =>
    obtain ⟨buf, load, nextSeq, mode, switches⟩ := state
    cases mode with
    | fifo =>
      by_cases above : high ≤ load
      · exact ⟨switches + 1, by simp [above]⟩
      · exact ⟨switches, by simp [above]⟩
    | lifo =>
      by_cases below : load ≤ low
      · exact ⟨switches + 1, by simp [below]⟩
      · exact ⟨switches, by simp [below]⟩

@[simp] theorem updateMode_mode :
    (state.updateMode policy).mode = policy.after state.mode state.load := by
  obtain ⟨_, same⟩ := state.updateMode_eq policy
  rw [same]

@[simp] theorem updateMode_buf : (state.updateMode policy).buf = state.buf := by
  obtain ⟨_, same⟩ := state.updateMode_eq policy
  rw [same]

@[simp] theorem updateMode_load : (state.updateMode policy).load = state.load := by
  obtain ⟨_, same⟩ := state.updateMode_eq policy
  rw [same]

@[simp] theorem updateMode_nextSeq : (state.updateMode policy).nextSeq = state.nextSeq := by
  obtain ⟨_, same⟩ := state.updateMode_eq policy
  rw [same]

@[simp] theorem updateMode_receiverAlive :
    (state.updateMode policy).receiverAlive = state.receiverAlive := by
  obtain ⟨_, same⟩ := state.updateMode_eq policy
  rw [same]

@[simp] theorem updateMode_pushWakers :
    (state.updateMode policy).pushWakers = state.pushWakers := by
  obtain ⟨_, same⟩ := state.updateMode_eq policy
  rw [same]

@[simp] theorem updateMode_nextPushWaiter :
    (state.updateMode policy).nextPushWaiter = state.nextPushWaiter := by
  obtain ⟨_, same⟩ := state.updateMode_eq policy
  rw [same]

end State

/-! ## The changes of the buffer -/

inductive Change (α : Type)
  | still
  | accepted (payload : α) (weight : ℕ)
  | popped (envelope : Envelope α) (weight : ℕ)
  | emptied
deriving DecidableEq, Repr

/-- The buffer, load, numbering and mode of `s` become those of `s'`. -/
inductive Moves (shared : Shared α) (s s' : State α) : Change α → Prop
  | still : s'.buf = s.buf → s'.load = s.load → s'.nextSeq = s.nextSeq → s'.mode = s.mode →
      Moves shared s s' .still
  | accepted {payload : α} {weight : ℕ} : fits s.load weight shared.capacity →
      s'.buf = s.buf ++ [(⟨s.nextSeq, payload⟩, weight)] →
      s'.load = wrappingAdd s.load weight → s'.nextSeq = s.nextSeq + 1 →
      s'.mode = shared.policy.after s.mode s'.load → Moves shared s s' (.accepted payload weight)
  | popped {envelope : Envelope α} {weight : ℕ} :
      State.next s.mode s.buf = some ((envelope, weight), s'.buf) →
      s'.load = wrappingSub s.load weight → s'.nextSeq = s.nextSeq →
      s'.mode = shared.policy.after s.mode s'.load → Moves shared s s' (.popped envelope weight)
  | emptied : s'.buf = [] → s'.load = 0 → s'.nextSeq = s.nextSeq →
      s'.mode = shared.policy.after s.mode 0 → Moves shared s s' .emptied

namespace Moves

variable {shared : Shared α} {s t u : State α} {change : Change α}

theorem still_trans (first : Moves shared s t .still) (second : Moves shared t u change) :
    Moves shared s u change := by
  obtain ⟨buf, load, nextSeq, mode⟩ := first
  cases second with
  | still buf' load' nextSeq' mode' =>
    exact .still (buf'.trans buf) (load'.trans load) (nextSeq'.trans nextSeq) (mode'.trans mode)
  | accepted admitted buf' load' nextSeq' mode' =>
    rw [buf, nextSeq] at buf'
    rw [load] at admitted load'
    rw [nextSeq] at nextSeq'
    rw [mode] at mode'
    exact .accepted admitted buf' load' nextSeq' mode'
  | popped served load' nextSeq' mode' =>
    rw [mode, buf] at served
    rw [load] at load'
    rw [mode] at mode'
    exact .popped served load' (nextSeq'.trans nextSeq) mode'
  | emptied buf' load' nextSeq' mode' =>
    rw [mode] at mode'
    exact .emptied buf' load' (nextSeq'.trans nextSeq) mode'

end Moves

/-! ## The load -/

/-- The weight buffered. -/
def State.weight (s : State α) : ℕ :=
  (s.buf.map Prod.snd).sum

/-- The load is the weight buffered, as a `usize` holds it, and no event is free. -/
structure State.Weighed (s : State α) : Prop where
  sized : ∀ entry ∈ s.buf, 1 ≤ entry.2 ∧ entry.2 ≤ usizeMax
  load_eq : s.load = s.weight % 2 ^ 64

variable {s : State α}

theorem State.Weighed.load_eq_zero (weighed : s.Weighed) (empty : s.buf = []) : s.load = 0 := by
  simp [weighed.load_eq, State.weight, empty]

variable {mode : Mode} {buf rest : List (Envelope α × ℕ)} {entry : Envelope α × ℕ}

/-- The event served stood at one end of the buffer. -/
theorem State.next_eq_some (served : State.next mode buf = some (entry, rest)) :
    (mode = .fifo ∧ buf = entry :: rest) ∨ (mode = .lifo ∧ buf = rest ++ [entry]) := by
  cases mode with
  | fifo =>
    cases buf with
    | nil => simp [State.next] at served
    | cons first others =>
      obtain ⟨rfl, rfl⟩ : first = entry ∧ others = rest := by simpa [State.next] using served
      exact .inl ⟨rfl, rfl⟩
  | lifo =>
    rcases List.eq_nil_or_concat' buf with rfl | ⟨front, last, rfl⟩
    · simp [State.next] at served
    · obtain ⟨rfl, rfl⟩ : last = entry ∧ front = rest := by simpa [State.next] using served
      exact .inr ⟨rfl, rfl⟩

theorem State.next_perm (served : State.next mode buf = some (entry, rest)) :
    buf.Perm (entry :: rest) := by
  rcases State.next_eq_some served with ⟨_, rfl⟩ | ⟨_, rfl⟩
  · rfl
  · exact List.perm_append_singleton _ _

theorem Moves.weighed {shared : Shared α} {s' : State α} {change : Change α}
    (moves : Moves shared s s' change) (weighed : s.Weighed)
    (sized : ∀ payload weight, change = .accepted payload weight → 1 ≤ weight ∧ weight ≤ usizeMax) :
    s'.Weighed := by
  have loaded := weighed.load_eq
  cases moves with
  | still buf load =>
    refine ⟨buf ▸ weighed.sized, ?_⟩
    rw [load, loaded, State.weight, State.weight, buf]
  | @accepted payload weight _ buf load =>
    constructor
    · rw [buf]
      intro entry among
      rcases List.mem_append.mp among with old | new
      · exact weighed.sized entry old
      · rw [List.mem_singleton.mp new]
        exact sized payload weight rfl
    · rw [load, wrappingAdd, loaded, State.weight, State.weight, buf]
      simp
  | @popped envelope weight served load =>
    have split := State.next_perm served
    have total : s.weight = weight + s'.weight := (split.map Prod.snd).sum_eq
    have own := weighed.sized _ (split.mem_iff.mpr List.mem_cons_self)
    refine ⟨fun entry among => weighed.sized entry (split.mem_iff.mpr (.tail _ among)), ?_⟩
    rw [load, wrappingSub, loaded, total]
    unfold usizeMax at own
    omega
  | emptied buf load =>
    constructor
    · simp [buf]
    · simp [load, State.weight, buf]

/-! ## The operations -/

namespace Shared

variable (shared : Shared α) (state : State α)

theorem weightOf_sized (payload : α) :
    1 ≤ shared.weightOf payload ∧ shared.weightOf payload ≤ usizeMax :=
  ⟨le_max_right _ _, max_le (shared.weigh_le payload) (by decide)⟩

theorem removePushWaiter_moves (waiter : Option ℕ) :
    Moves shared state (state.removePushWaiter waiter).2 .still := by
  cases waiter with
  | none | some _ => exact .still rfl rfl rfl rfl

theorem takeAdmittedWaiters_moves :
    Moves shared state (state.takeAdmittedWaiters shared.capacity).2 .still :=
  .still rfl rfl rfl rfl

theorem dropParked_moves (parked : ParkedProducer) :
    Moves shared state (shared.dropParked parked state).2 .still := by
  unfold dropParked
  split
  · exact .still rfl rfl rfl rfl
  dsimp only
  split
  · exact shared.removePushWaiter_moves state _
  · exact (shared.removePushWaiter_moves state _).still_trans
      (shared.takeAdmittedWaiters_moves _)

theorem park_moves (parked : ParkedProducer) (waker : Waker) :
    Moves shared state (parked.park state waker).2 .still := by
  unfold ParkedProducer.park
  cases parked.waiter with
  | none | some _ => exact .still rfl rfl rfl rfl

variable {shared state}

theorem accept_moves {weight : ℕ} (payload : α) (admitted : state.admits weight shared.capacity) :
    Moves shared state (shared.accept state payload weight).2.2 (.accepted payload weight) := by
  refine .accepted admitted ?_ ?_ ?_ ?_ <;> simp [accept, State.nextSequence, State.enqueue]

variable (shared state)

/-- A push is refused with its event and the state as it was, or numbered and buffered. -/
theorem tryPush_cases (payload : α) :
    (state.receiverAlive = false ∧
        shared.tryPush state payload = (.error (.closed payload), none, state)) ∨
      (state.receiverAlive = true ∧ state.admits (shared.weightOf payload) shared.capacity = false ∧
        shared.tryPush state payload = (.error (.full payload), none, state)) ∨
      (state.receiverAlive = true ∧ state.admits (shared.weightOf payload) shared.capacity = true ∧
        ∃ waker, shared.tryPush state payload = (.ok state.nextSeq, waker,
          (shared.accept state payload (shared.weightOf payload)).2.2)) := by
  unfold tryPush
  cases alive : state.receiverAlive with
  | false => exact .inl ⟨rfl, rfl⟩
  | true =>
    cases admitted : state.admits (shared.weightOf payload) shared.capacity with
    | false => exact .inr (.inl ⟨rfl, rfl, by simp [admitted]⟩)
    | true => exact .inr (.inr ⟨rfl, rfl, _, by simp [admitted, accept, State.nextSequence]; rfl⟩)

/-- A poll ends the push, with its event back or numbered, or leaves it in the line. -/
theorem pollPush_cases (push : Push α) (payload : α) (waker : Waker) :
    (state.receiverAlive = false ∧ shared.pollPush push payload state waker =
        (some (.error payload), none, ⟨{ push.parked with waiter := none }, none⟩,
          (state.removePushWaiter push.parked.waiter).2)) ∨
      (state.admits push.parked.weight shared.capacity = true ∧
        ∃ receiver, shared.pollPush push payload state waker =
          (some (.ok state.nextSeq), receiver, ⟨{ push.parked with waiter := none }, none⟩,
            (shared.accept (state.removePushWaiter push.parked.waiter).2 payload
              push.parked.weight).2.2)) ∨
      (state.receiverAlive = true ∧ state.admits push.parked.weight shared.capacity = false ∧
        shared.pollPush push payload state waker =
          (none, none, { push with parked := (push.parked.park state waker).1 },
            (push.parked.park state waker).2)) := by
  unfold pollPush
  cases alive : state.receiverAlive with
  | false => exact .inl ⟨rfl, rfl⟩
  | true =>
    cases admitted : state.admits push.parked.weight shared.capacity with
    | false => exact .inr (.inr ⟨rfl, rfl, by simp⟩)
    | true =>
      have number : (state.removePushWaiter push.parked.waiter).2.nextSeq = state.nextSeq := by
        cases push.parked.waiter <;> rfl
      refine .inr (.inl ⟨rfl, (shared.accept (state.removePushWaiter push.parked.waiter).2
        payload push.parked.weight).2.1, ?_⟩)
      simp only [Bool.not_true, Bool.false_eq_true, if_false, if_true,
        ParkedProducer.served, accept, State.nextSequence, number]

/-- An event served leaves its buffer, and the room it held is offered to the line. -/
theorem dequeue_moves {envelope : Envelope α} {rest : State α}
    (served : state.dequeue = some (envelope, rest)) :
    ∃ weight, Moves shared state (shared.release rest).2 (.popped envelope weight) ∧
      rest = { state with buf := rest.buf, load := rest.load } := by
  unfold State.dequeue at served
  split at served
  · cases served
  rename_i weight buf picked
  cases served
  refine ⟨weight, .popped ?_ ?_ ?_ ?_, rfl⟩ <;>
    simp [release, State.takeAdmittedWaiters, picked]

theorem takeQueued_moves : Moves shared state (shared.takeQueued state).2.2 .emptied := by
  refine .emptied ?_ ?_ ?_ ?_ <;> simp [takeQueued, release, State.takeAdmittedWaiters]

end Shared

end E6irc.Queue
