import E6irc.Queue.World

/-!
# The line of waiting producers

A producer whose event does not fit parks in the line and sleeps.  It is woken
when its registration is taken out of the line, by an operation that found room
for it; until it is polled or dropped it is the one that will use that room, or
give it back.  `Placed` says whose the registrations are; `Attended` is the
invariant that an empty buffer beside a line that is not empty has such a
producer.
-/

namespace E6irc.Queue

open Base List PushWaiter State World Shared

variable {α : Type}

/-! ## Whose a registration is -/

/-- Some push in progress holds the registration `id`. -/
def Owned (producers : List (Option (Push α))) (id : ℕ) : Prop :=
  ∃ (producer : ℕ) (push : Push α), producers[producer]? = some (some push) ∧
    push.parked.waiter = some id ∧ push.payload.isSome

namespace Owned

variable {producers : List (Option (Push α))} {producer id : ℕ} {push : Push α}

theorem append (owned : Owned producers id) (more : List (Option (Push α))) :
    Owned (producers ++ more) id := by
  obtain ⟨owner, own, held, rest⟩ := owned
  obtain ⟨within, _⟩ := List.getElem?_eq_some_iff.mp held
  exact ⟨owner, own, by rw [getElem?_append_left within, held], rest⟩

/-- A change of another producer leaves the owner where it was. -/
theorem set (owned : Owned producers id) (held : producers[producer]? = some (some push))
    (other : push.parked.waiter ≠ some id) (new : Option (Push α)) :
    Owned (producers.set producer new) id := by
  obtain ⟨owner, own, heldOwn, waiter, waits⟩ := owned
  have apart : producer ≠ owner := by
    rintro rfl
    rw [held] at heldOwn
    cases heldOwn
    exact other waiter
  exact ⟨owner, own, by rw [getElem?_set_ne apart, heldOwn], waiter, waits⟩

theorem here (held : producers[producer]? = some (some push)) {new : Push α}
    (waiter : new.parked.waiter = some id) (waits : new.payload.isSome) :
    Owned (producers.set producer (some new)) id := by
  obtain ⟨within, _⟩ := List.getElem?_eq_some_iff.mp held
  exact ⟨producer, new, by rw [getElem?_set_self within], waiter, waits⟩

theorem of_set {new : Option (Push α)} (owned : Owned (producers.set producer new) id) :
    (∃ push ∈ new, push.parked.waiter = some id) ∨ Owned producers id := by
  obtain ⟨owner, own, held, rest⟩ := owned
  rcases Stepped.pending_set held with same | before
  · exact .inl ⟨own, same, rest.1⟩
  · exact .inr ⟨owner, own, before, rest⟩

theorem of_append (owned : Owned (producers ++ [some push]) id) :
    push.parked.waiter = some id ∨ Owned producers id := by
  obtain ⟨owner, own, held, rest⟩ := owned
  rw [getElem?_append] at held
  split at held
  · exact .inr ⟨owner, own, held, rest⟩
  · obtain rfl : own = push := by simpa using mem_of_getElem? held
    exact .inl rest.1

end Owned

/-- The registrations `ids` are held by pushes in progress, no two are the same,
and the next one is new. -/
structure Placed (producers : List (Option (Push α))) (next : ℕ) (ids : List ℕ) : Prop where
  owned : ∀ id ∈ ids, Owned producers id
  apart : ids.Nodup
  fresh : ∀ id, Owned producers id → id < next

namespace Placed

variable {producers : List (Option (Push α))} {next producer : ℕ} {ids ids' : List ℕ}
  {push : Push α}

section

variable (placed : Placed producers next ids)
include placed

theorem perm (same : ids'.Perm ids) : Placed producers next ids' where
  owned id among := placed.owned id (same.mem_iff.mp among)
  apart := same.nodup_iff.mpr placed.apart
  fresh := placed.fresh

theorem append (new : push.parked.waiter = none) : Placed (producers ++ [some push]) next ids where
  owned id among := (placed.owned id among).append _
  apart := placed.apart
  fresh id owned := by
    rcases owned.of_append with here | before
    · rw [new] at here
      cases here
    · exact placed.fresh id before

/-- The producer is done, and its registration goes. -/
theorem leave (held : producers[producer]? = some (some push)) (new : Option (Push α))
    (done : ∀ push, new = some push → push.parked.waiter = none) :
    Placed (producers.set producer new) next
      (ids.filter fun id => push.parked.waiter ≠ some id) where
  owned id among := by
    obtain ⟨among, other⟩ := mem_filter.mp among
    exact (placed.owned id among).set held (of_decide_eq_true other) new
  apart := placed.apart.filter _
  fresh id owned := by
    rcases owned.of_set with ⟨push, isNew, here⟩ | before
    · rw [done push isNew] at here
      cases here
    · exact placed.fresh id before

/-- The producer gives up its registration for `id`, which no other holds. -/
theorem join (held : producers[producer]? = some (some push)) (new : Push α) {id next' : ℕ}
    (waiter : new.parked.waiter = some id) (waits : new.payload.isSome)
    (unused : id ∉ ids.filter fun id => push.parked.waiter ≠ some id)
    (below : id < next') (grows : next ≤ next') : Placed (producers.set producer (some new)) next'
      (id :: ids.filter fun id => push.parked.waiter ≠ some id) where
  owned other among := by
    rcases mem_cons.mp among with rfl | among
    · exact .here held waiter waits
    · obtain ⟨among, apart⟩ := mem_filter.mp among
      exact (placed.owned other among).set held (of_decide_eq_true apart) _
  apart := nodup_cons.mpr ⟨unused, placed.apart.filter _⟩
  fresh other owned := by
    rcases owned.of_set with ⟨push, isNew, here⟩ | before
    · cases isNew
      cases waiter.symm.trans here
      exact below
    · exact (placed.fresh other before).trans_le grows

end

end Placed

/-! ## The line -/

namespace PushWaiter

theorem without_ids (waiter : Option ℕ) (line : List PushWaiter) :
    (without waiter line).map id = (line.map id).filter fun id => waiter ≠ some id := by
  rw [without, filter_map]
  rfl

end PushWaiter

namespace ParkedProducer

/-- A refreshed registration keeps its place and all but its waker; a new one
joins at the end. -/
theorem register_map {β : Type} (f : PushWaiter → β)
    (blind : ∀ registration waker, f { registration with waker } = f registration)
    (waiter : PushWaiter) (waiters : List PushWaiter) :
    (register waiter waiters).map f =
      if waiter.id ∈ waiters.map PushWaiter.id then waiters.map f
      else waiters.map f ++ [f waiter] := by
  unfold register
  cases found : waiters.findIdx? fun candidate => candidate.id = waiter.id with
  | none =>
    have missing : waiter.id ∉ waiters.map PushWaiter.id := by
      rw [findIdx?_eq_none_iff] at found
      simpa using found
    rw [if_neg missing, map_append, map_singleton]
  | some place =>
    have present : waiter.id ∈ waiters.map PushWaiter.id := by
      obtain ⟨within, here, _⟩ := findIdx?_eq_some_iff_getElem.mp found
      exact mem_map.mpr ⟨_, getElem_mem within, of_decide_eq_true here⟩
    rw [if_pos present]
    refine ext_getElem? fun other => ?_
    rw [getElem?_map, getElem?_map, getElem?_modify]
    split
    · cases waiters[other]? with
      | none => rfl
      | some registration => exact congrArg some (blind registration _)
    · cases waiters[other]? <;> rfl

theorem register_ids (waiter : PushWaiter) (waiters : List PushWaiter) :
    (register waiter waiters).map PushWaiter.id =
      if waiter.id ∈ waiters.map PushWaiter.id then waiters.map PushWaiter.id
      else waiters.map PushWaiter.id ++ [waiter.id] :=
  register_map PushWaiter.id (fun _ _ => rfl) waiter waiters

end ParkedProducer

namespace State

/-- Into an empty queue anything fits, so the first in line is taken. -/
theorem countAdmitted_pos (capacity : ℕ) {line : List PushWaiter} (waiting : line ≠ []) :
    0 < countAdmitted capacity 0 line := by
  cases line with
  | nil => exact absurd rfl waiting
  | cons first rest => simp [countAdmitted, fits]

/-- Taking from the front of the line moves registrations, and loses none. -/
theorem taken_perm (count : ℕ) (line chosen : List PushWaiter) :
    ((line.drop count ++ (chosen ++ line.take count)).map PushWaiter.id).Perm
      ((line ++ chosen).map PushWaiter.id) := by
  refine Perm.map _ ?_
  calc (line.drop count ++ (chosen ++ line.take count)).Perm
        (chosen ++ line.take count ++ line.drop count) := perm_append_comm
    _ = chosen ++ line := by rw [append_assoc, take_append_drop]
    (chosen ++ line).Perm (line ++ chosen) := perm_append_comm

variable {state : State α}

theorem removePushWaiter_pushWakers (waiter : Option ℕ) :
    (state.removePushWaiter waiter).2.pushWakers = without waiter state.pushWakers := by
  cases waiter with
  | none => simp [removePushWaiter, without]
  | some waiter =>
    simp only [removePushWaiter, without, ne_eq, Option.some.injEq]
    congr 1
    funext registration
    exact decide_eq_decide.mpr (not_congr eq_comm)

@[simp] theorem removePushWaiter_receiverAlive (waiter : Option ℕ) :
    (state.removePushWaiter waiter).2.receiverAlive = state.receiverAlive := by
  cases waiter <;> rfl

theorem removePushWaiter_nextPushWaiter (waiter : Option ℕ) :
    (state.removePushWaiter waiter).2.nextPushWaiter = state.nextPushWaiter := by
  cases waiter <;> rfl

end State

namespace Shared

variable (shared : Shared α) (state : State α)

attribute [local simp] State.takeAdmittedWaiters State.nextSequence State.enqueue accept release

@[simp] theorem accept_buf (payload : α) (weight : ℕ) :
    (shared.accept state payload weight).2.2.buf =
      state.buf ++ [(⟨state.nextSeq, payload⟩, weight)] := by
  simp

@[simp] theorem accept_pushWakers (payload : α) (weight : ℕ) :
    (shared.accept state payload weight).2.2.pushWakers = state.pushWakers := by
  simp

@[simp] theorem accept_receiverAlive (payload : α) (weight : ℕ) :
    (shared.accept state payload weight).2.2.receiverAlive = state.receiverAlive := by
  simp

@[simp] theorem accept_nextPushWaiter (payload : α) (weight : ℕ) :
    (shared.accept state payload weight).2.2.nextPushWaiter = state.nextPushWaiter := by
  simp

/-- Room that appears is offered to the line from its front. -/
theorem release_line :
    ∃ count, (shared.release state).1 = state.pushWakers.take count ∧
      (shared.release state).2.pushWakers = state.pushWakers.drop count :=
  ⟨countAdmitted shared.capacity state.load state.pushWakers,
    by simp, by simp⟩

variable {shared state} in
/-- An empty queue beside a line that is not empty wakes the first in it. -/
theorem release_wakes (empty : state.load = 0)
    (waiting : (shared.release state).2.pushWakers ≠ []) : (shared.release state).1 ≠ [] := by
  simp only [release, takeAdmittedWaiters, updateMode_load, empty,
    updateMode_pushWakers] at waiting ⊢
  have line : state.pushWakers ≠ [] := by
    intro none
    simp [none] at waiting
  have first := countAdmitted_pos shared.capacity line
  simp [first.ne', line]

@[simp] theorem release_load : (shared.release state).2.load = state.load := by
  simp

@[simp] theorem release_nextPushWaiter :
    (shared.release state).2.nextPushWaiter = state.nextPushWaiter := by
  simp

@[simp] theorem release_receiverAlive :
    (shared.release state).2.receiverAlive = state.receiverAlive := by
  simp

@[simp] theorem dropParked_receiverAlive (parked : ParkedProducer) :
    (shared.dropParked parked state).2.receiverAlive = state.receiverAlive := by
  unfold dropParked
  split
  · rfl
  · dsimp only
    split <;> rfl

@[simp] theorem dropParked_nextPushWaiter (parked : ParkedProducer) :
    (shared.dropParked parked state).2.nextPushWaiter = state.nextPushWaiter := by
  unfold dropParked
  split
  · rfl
  · dsimp only
    split <;> rfl

/-- A producer that is dropped leaves the line; one that was woken has the room
it does not use offered on. -/
theorem dropParked_line (parked : ParkedProducer) :
    ∃ count, (shared.dropParked parked state).1 =
        (without parked.waiter state.pushWakers).take count ∧
      (shared.dropParked parked state).2.pushWakers =
        (without parked.waiter state.pushWakers).drop count ∧
      (parked.waiter.isSome → state.load = 0 →
        (∀ id ∈ parked.waiter, id ∉ state.pushWakers.map PushWaiter.id) →
        without parked.waiter state.pushWakers ≠ [] → 0 < count) := by
  unfold dropParked
  cases waiting : parked.waiter with
  | none => exact ⟨0, by simp [without]⟩
  | some waiter =>
    have line : (state.removePushWaiter (some waiter)).2.pushWakers = _ :=
      removePushWaiter_pushWakers (some waiter)
    dsimp only
    split
    · rename_i listed
      refine ⟨0, by simp, by simpa using line, fun _ _ gone _ => ?_⟩
      have kept : (state.pushWakers.filter fun candidate => candidate.id ≠ waiter) =
          state.pushWakers := by
        rw [filter_eq_self]
        intro candidate among
        have other := gone waiter rfl
        exact decide_eq_true fun same => other (mem_map.mpr ⟨candidate, among, same⟩)
      simp only [removePushWaiter, kept] at listed
      simp at listed
    · refine ⟨countAdmitted shared.capacity
        (state.removePushWaiter (some waiter)).2.load
        (state.removePushWaiter (some waiter)).2.pushWakers, ?_, ?_, ?_⟩
      · rw [takeAdmittedWaiters, line]
      · rw [takeAdmittedWaiters, line]
      intro _ empty _ others
      have load : (state.removePushWaiter (some waiter)).2.load = 0 := empty
      rw [load, line]
      exact countAdmitted_pos _ others

end Shared

/-! ## Nobody is left beside an empty queue -/

namespace World

/-- The registrations in the line, then those taken out of it and not polled since. -/
def ids (w : World α) : List ℕ :=
  (w.queue.pushWakers ++ w.chosen).map PushWaiter.id

/-- The registrations are those of pushes in progress, and beside an empty
buffer the line is empty or a producer is on its way to it. -/
structure Attended (w : World α) : Prop where
  placed : Placed w.producers w.queue.nextPushWaiter w.ids
  someone : w.queue.buf = [] → w.queue.pushWakers ≠ [] → w.chosen ≠ []
  closed : w.queue.receiverAlive = false → w.queue.pushWakers = []

theorem ids_without {w : World α} (waiter : Option ℕ) :
    (without waiter w.queue.pushWakers ++ without waiter w.chosen).map
      PushWaiter.id = w.ids.filter fun id => waiter ≠ some id := by
  rw [map_append, without_ids, without_ids, ids, map_append, filter_append]

end World

namespace Stepped

variable {shared : Shared α} {w w' : World α} {e : Event α}

/-- A producer that parks is registered once, in the line, where it was or at its end. -/
theorem placed_of_park {producer : ℕ} {push : Push α} {payload : α} (waker : Waker)
    (placed : Placed w.producers w.queue.nextPushWaiter w.ids)
    (pending : w.Pending producer push payload) :
    Placed
      (w.producers.set producer (some { push with parked := (push.parked.park w.queue waker).1 }))
      (push.parked.park w.queue waker).2.nextPushWaiter
      (((push.parked.park w.queue waker).2.pushWakers ++
        PushWaiter.without push.parked.waiter w.chosen).map PushWaiter.id) := by
  have waits : push.payload.isSome := by simp [pending.waits]
  rw [map_append, without_ids]
  unfold ParkedProducer.park
  cases waiter : push.parked.waiter with
  | none =>
    have unused : w.queue.nextPushWaiter ∉ w.ids :=
      fun among => (placed.fresh _ (placed.owned _ among)).false
    have absent : w.queue.nextPushWaiter ∉ w.queue.pushWakers.map PushWaiter.id := by
      simp only [ids, map_append, mem_append, not_or] at unused
      exact unused.1
    have joined := placed.join pending.held
      { push with parked := { push.parked with waiter := some w.queue.nextPushWaiter } }
      rfl waits (fun among => unused (mem_filter.mp among).1) (Nat.lt_succ_self _)
      (Nat.le_succ _)
    simp only [waiter, ParkedProducer.register_ids, if_neg absent] at joined ⊢
    refine joined.perm ?_
    simp [ids]
  | some id =>
    have below : id < w.queue.nextPushWaiter :=
      placed.fresh id ⟨producer, push, pending.held, waiter, waits⟩
    have joined := placed.join pending.held push waiter waits (by simp [waiter]) below le_rfl
    simp only [waiter, ParkedProducer.register_ids] at joined ⊢
    refine joined.perm ?_
    rw [ids, map_append, filter_append, ← cons_append]
    refine Perm.append_right _ ?_
    have apart : (w.queue.pushWakers.map PushWaiter.id).Nodup := by
      have whole := placed.apart
      rw [ids, map_append] at whole
      exact (nodup_append.mp whole).1
    have others : ((w.queue.pushWakers.map PushWaiter.id).filter fun other => some id ≠ some other) =
        (w.queue.pushWakers.map PushWaiter.id).erase id := by
      rw [apart.erase_eq_filter]
      congr 1
      funext other
      rcases eq_or_ne other id with rfl | differs
      · simp
      · simp [differs, differs.symm]
    rw [others]
    split
    · rename_i listed
      exact perm_cons_erase listed
    · rename_i missing
      rw [erase_of_not_mem missing]
      exact perm_append_comm

theorem placed (stepped : Stepped shared w e w')
    (placed : Placed w.producers w.queue.nextPushWaiter w.ids) :
    Placed w'.producers w'.queue.nextPushWaiter w'.ids := by
  cases stepped with
  | refused => exact placed
  | offered =>
    simp only [ids, accept_pushWakers, accept_nextPushWaiter]
    exact placed
  | created => exact placed.append rfl
  | @turnedAway producer push _ _ pending =>
    have left := placed.leave pending.held
      (some ⟨{ push.parked with waiter := none }, none⟩) (by rintro _ ⟨⟩; rfl)
    simp only [ids, removePushWaiter_pushWakers,
      removePushWaiter_nextPushWaiter, ids_without]
    exact left
  | @pushed producer push _ _ pending =>
    have left := placed.leave pending.held
      (some ⟨{ push.parked with waiter := none }, none⟩) (by rintro _ ⟨⟩; rfl)
    simp only [ids, accept_pushWakers, accept_nextPushWaiter,
      removePushWaiter_pushWakers, removePushWaiter_nextPushWaiter, ids_without]
    exact left
  | parked pending => exact placed_of_park _ placed pending
  | @dropped producer push held =>
    have left := placed.leave held none (by rintro _ ⟨⟩)
    obtain ⟨count, taken, kept, _⟩ := shared.dropParked_line w.queue push.parked
    simp only [ids, taken, kept, dropParked_nextPushWaiter]
    refine left.perm ?_
    rw [← ids_without]
    exact taken_perm count _ _
  | @served _ _ rest serving =>
    obtain ⟨_, _, same⟩ := shared.dequeue_moves w.queue serving
    obtain ⟨count, taken, kept⟩ := shared.release_line rest
    simp only [ids, taken, kept, release_nextPushWaiter]
    rw [same]
    exact placed.perm (taken_perm count _ _)
  | emptied =>
    obtain ⟨count, taken, kept⟩ := shared.release_line { w.queue with buf := [], load := 0 }
    simp only [ids, takeQueued, taken, kept, release_nextPushWaiter]
    exact placed.perm (taken_perm count _ _)
  | idle => exact placed
  | closed =>
    refine placed.perm ?_
    simpa [ids] using perm_append_comm

/-- Dropping a producer in the line leaves the one woken before; dropping the
one woken has the next in line woken in its place. -/
theorem someone_of_drop {push : Push α} (attended : w.Attended) (weighed : w.queue.Weighed)
    (empty : w.queue.buf = [])
    (waiting : (shared.dropParked push.parked w.queue).2.pushWakers ≠ []) :
    without push.parked.waiter w.chosen ++
      (shared.dropParked push.parked w.queue).1 ≠ [] := by
  obtain ⟨count, taken, kept, offered⟩ := shared.dropParked_line w.queue push.parked
  rw [kept] at waiting
  have others : without push.parked.waiter w.queue.pushWakers ≠ [] := by
    intro none
    simp [none] at waiting
  have line : w.queue.pushWakers ≠ [] := by
    intro none
    simp [none, without] at others
  by_cases woken : push.parked.waiter.isSome ∧
      ∀ id ∈ push.parked.waiter, id ∉ w.queue.pushWakers.map PushWaiter.id
  · have some_taken := offered woken.1 (weighed.load_eq_zero empty) woken.2 others
    rw [taken]
    simp [some_taken.ne', others]
  · have same : without push.parked.waiter w.chosen = w.chosen := by
      rw [without, filter_eq_self]
      intro registration among
      refine decide_eq_true fun own => woken ⟨by simp [own], fun id isOwn listed => ?_⟩
      have apart := attended.placed.apart
      rw [ids, map_append] at apart
      obtain rfl : registration.id = id := Option.some.inj (own.symm.trans isOwn)
      exact disjoint_of_nodup_append apart listed (mem_map_of_mem among)
    rw [same]
    simp [attended.someone empty line]

theorem someone (stepped : Stepped shared w e w') (attended : w.Attended)
    (weighed : w.queue.Weighed) (weighed' : w'.queue.Weighed) (empty : w'.queue.buf = [])
    (waiting : w'.queue.pushWakers ≠ []) : w'.chosen ≠ [] := by
  cases stepped with
  | refused | created | idle => exact attended.someone empty waiting
  | offered => simp at empty
  | turnedAway _ gone =>
    simp [removePushWaiter_pushWakers, without, attended.closed gone] at waiting
  | pushed => simp at empty
  | @parked _ push _ waker _ _ refused =>
    obtain ⟨same, _⟩ := shared.park_moves w.queue push.parked waker
    have load := weighed.load_eq_zero (same ▸ empty)
    simp [admits, fits, load] at refused
  | @dropped _ push held =>
    obtain ⟨same, _⟩ := shared.dropParked_moves w.queue push.parked
    exact someone_of_drop attended weighed (same ▸ empty) waiting
  | served =>
    have load := weighed'.load_eq_zero empty
    rw [release_load] at load
    simp [release_wakes load waiting]
  | emptied => simp [takeQueued, release_wakes rfl waiting]
  | closed => exact absurd rfl waiting

/-- Once the receiver is gone the line stays empty. -/
theorem closed_line (stepped : Stepped shared w e w')
    (closed : w.queue.receiverAlive = false → w.queue.pushWakers = [])
    (gone : w'.queue.receiverAlive = false) : w'.queue.pushWakers = [] := by
  cases stepped with
  | refused | created | idle => exact closed gone
  | offered => simpa using closed (by simpa using gone)
  | turnedAway _ before =>
    simp [removePushWaiter_pushWakers, without, closed before]
  | @pushed _ push =>
    have before : w.queue.receiverAlive = false := by simpa using gone
    simp [removePushWaiter_pushWakers, without, closed before]
  | @parked _ push _ waker _ alive =>
    have same : (push.parked.park w.queue waker).2.receiverAlive = w.queue.receiverAlive := by
      unfold ParkedProducer.park
      cases push.parked.waiter <;> rfl
    rw [same, alive] at gone
    cases gone
  | @dropped _ push =>
    obtain ⟨count, _, kept, _⟩ := shared.dropParked_line w.queue push.parked
    have before : w.queue.receiverAlive = false := by simpa using gone
    simp [kept, without, closed before]
  | @served _ _ rest serving =>
    obtain ⟨_, _, same⟩ := shared.dequeue_moves w.queue serving
    obtain ⟨count, _, kept⟩ := shared.release_line rest
    have before : rest.receiverAlive = false := by simpa using gone
    rw [same] at before
    have line : rest.pushWakers = [] := by
      rw [same]
      exact closed before
    simp [kept, line]
  | emptied =>
    obtain ⟨count, _, kept⟩ := shared.release_line { w.queue with buf := [], load := 0 }
    have before : w.queue.receiverAlive = false := by simpa [takeQueued] using gone
    have line : (shared.takeQueued w.queue).2.2.pushWakers = w.queue.pushWakers.drop count := kept
    rw [line, closed before, drop_nil]
  | closed => rfl

end Stepped

/-- Where the load follows the weights, the line is attended. -/
structure World.Sound (shared : Shared α) (w : World α) : Prop where
  sized : w.Sized shared
  weighed : w.queue.Weighed
  attended : w.Attended

theorem World.sound_init (shared : Shared α) : (system shared).init.Sound shared where
  sized := by
    rintro producer push payload ⟨held, _⟩
    simp [system] at held
  weighed := ⟨by simp [system], rfl⟩
  attended := by
    refine ⟨⟨?_, ?_, ?_⟩, ?_, ?_⟩ <;> simp [system, ids, Owned]

theorem Stepped.sound {shared : Shared α} {w w' : World α} {e : Event α}
    (stepped : Stepped shared w e w')
    (sound : w.Sound shared) : w'.Sound shared := by
  obtain ⟨change, moves, logs⟩ := stepped.moves sound.sized
  have weighed : w'.queue.Weighed := moves.weighed sound.weighed fun payload weight isAccept => by
    subst isAccept
    cases logs
    exact shared.weightOf_sized payload
  exact ⟨stepped.sized sound.sized, weighed, stepped.placed sound.attended.placed,
    stepped.someone sound.attended sound.weighed weighed, stepped.closed_line sound.attended.closed⟩

theorem World.sound_run {shared : Shared α} {ok : List (Event α) → World α → Event α → Prop}
    {es : List (Event α)} {w : World α} (run : (system shared).Run ok es w) : w.Sound shared :=
  run.invariant (P := fun _ w => w.Sound shared) (sound_init shared)
    fun _ _ _ _ sound _ step => (stepped step).sound sound

/-- Whenever the buffer is empty and a producer is parked in the line, another
one was taken out of it and woken, and has been neither polled nor dropped since:
its push is in progress and in the line no longer. -/
theorem a_producer_is_woken {shared : Shared α} {es : List (Event α)} {w : World α}
    (run : (system shared).Run System.anyStep es w) (empty : w.queue.buf = [])
    (parked : w.queue.pushWakers ≠ []) :
    ∃ registration ∈ w.chosen, registration.id ∉ w.queue.pushWakers.map PushWaiter.id ∧
      ∃ (producer : ℕ) (push : Push α), w.producers[producer]? = some (some push) ∧
        push.parked.waiter = some registration.id ∧ push.payload.isSome := by
  obtain ⟨placed, someone, _⟩ := (sound_run run).attended
  obtain ⟨registration, chosen⟩ := exists_mem_of_ne_nil _ (someone empty parked)
  have mine : registration.id ∈ w.chosen.map PushWaiter.id := mem_map_of_mem chosen
  refine ⟨registration, chosen, fun listed => ?_, placed.owned registration.id ?_⟩
  · have apart := placed.apart
    rw [ids, map_append] at apart
    exact disjoint_of_nodup_append apart listed mine
  · rw [ids, map_append]
    exact mem_append_right _ mine

/-- A queue of capacity 2 whose events weigh what they are. -/
def two : Shared ℕ where
  capacity := 2
  policy := .fifo
  weigh payload := min payload usizeMax
  capacity_pos := by decide
  capacity_le := by decide
  watermarks := by simp
  weigh_le _ := min_le_right _ _

/-- One event fills the queue, two producers park, and the event is popped: the
first is woken, the second waits beside the empty queue. -/
theorem a_producer_is_woken_of_two_parked :
    ∃ w, (system two).Run System.anyStep [.tryPush 2, .push 2, .push 2, .pollPush 0 7,
        .pollPush 1 8, .tryPop] w ∧
      w.queue.buf = [] ∧ w.queue.pushWakers = [⟨1, 2, 8⟩] ∧
      ∃ registration ∈ w.chosen, registration.id ∉ w.queue.pushWakers.map PushWaiter.id ∧
        ∃ (producer : ℕ) (push : Push ℕ), w.producers[producer]? = some (some push) ∧
          push.parked.waiter = some registration.id ∧ push.payload.isSome := by
  have replay : ((system two).exec [.tryPush 2, .push 2, .push 2, .pollPush 0 7,
      .pollPush 1 8, .tryPop]).map (fun w => (w.queue.buf, w.queue.pushWakers)) =
      some ([], [⟨1, 2, 8⟩]) := by decide +kernel
  obtain ⟨w, run, seen⟩ := System.exists_run replay
  obtain ⟨empty, line⟩ := Prod.mk.inj seen
  exact ⟨w, run, empty, line, a_producer_is_woken run empty (by simp [line])⟩

end E6irc.Queue
