import E6irc.Queue.Waiters

/-!
# Room beside the line

Whether room is left unused beside a waiting producer.  A producer taken out of
the line and woken was counted against the room it will use, so the room the
first in line waits for is judged beside the load and the weights still on
their way: `World.Full` says that it does not fit there.  Every operation keeps
this but two.  A producer dropped while it is still in the line leaves the ones
behind it as they are, although it may have been the only one that did not fit;
and a producer that was woken, found the room gone and parked again gives back
the room it was counted against without offering it.
-/

namespace E6irc.Queue

open Base List PushWaiter Shared

variable {α : Type}

/-! ## The admission rule -/

theorem fits_eq_false_iff {load weight capacity : ℕ} :
    fits load weight capacity = false ↔
      load ≠ 0 ∧ capacity < load + weight ∧ capacity < usizeMax := by
  rw [← Bool.not_eq_true, fits_iff, saturatingAdd]
  omega

variable {load' : ℕ}

/-- A greater load leaves no more room. -/
theorem fits_of_le {load weight capacity : ℕ} (refused : fits load weight capacity = false)
    (more : load ≤ load') : fits load' weight capacity = false := by
  rw [fits_eq_false_iff] at refused ⊢
  omega

/-- What did not fit, once it is in, leaves no room for anything. -/
theorem fits_behind {load weight other capacity : ℕ}
    (refused : fits load weight capacity = false) (more : load + weight ≤ load') :
    fits load' other capacity = false := by
  rw [fits_eq_false_iff] at refused ⊢
  omega

/-- Below the largest `usize` an admitted event does not overflow the load. -/
theorem wrappingAdd_eq {load weight capacity : ℕ} (admitted : fits load weight capacity)
    (sized : weight ≤ usizeMax) (below : capacity < usizeMax) :
    wrappingAdd load weight = load + weight := by
  rw [fits_iff, saturatingAdd] at admitted
  have limit : usizeMax = 2 ^ 64 - 1 := rfl
  exact Nat.mod_eq_of_lt (by omega)

/-! ## The weights of registrations -/

namespace PushWaiter

/-- What a list of producers will add to the load. -/
def weights (line : List PushWaiter) : ℕ :=
  (line.map weight).sum

@[simp] theorem weights_append (line more : List PushWaiter) :
    weights (line ++ more) = weights line + weights more := by
  simp [weights]

theorem without_sublist (waiter : Option ℕ) (line : List PushWaiter) :
    (without waiter line).Sublist line :=
  filter_sublist

variable {line : List PushWaiter} {waiter : Option ℕ}

theorem without_eq_self
    (missing : ∀ id ∈ waiter, id ∉ line.map PushWaiter.id) : without waiter line = line := by
  rw [without, filter_eq_self]
  intro registration among
  exact decide_eq_true fun own => missing registration.id own (mem_map_of_mem among)

/-- A producer of weight `weight` that goes takes at most that off the total. -/
theorem weights_le_without {id weight : ℕ} (apart : (line.map PushWaiter.id).Nodup)
    (own : ∀ registration ∈ line, registration.id = id → registration.weight = weight) :
    weights line ≤ weights (without (some id) line) + weight := by
  induction line with
  | nil => simp [weights]
  | cons first rest ih =>
    rw [map_cons, nodup_cons] at apart
    by_cases same : first.id = id
    · -- The others are of other producers.
      have others : without (some id) (first :: rest) = rest := by
        have here : without (some id) (first :: rest) = without (some id) rest := by
          simp [without, same]
        rw [here]
        refine without_eq_self fun other isOwn => ?_
        cases isOwn
        exact same ▸ apart.1
      rw [others, ← own first (by simp) same]
      simp [weights, add_comm]
    · have kept : without (some id) (first :: rest) = first :: without (some id) rest := by
        simp [without, Ne.symm same]
      have below := ih apart.2 fun registration among => own registration (by simp [among])
      rw [kept]
      simp only [weights, map_cons, sum_cons] at below ⊢
      omega

/-- Who is first once a producer is gone: who was, unless it is the one that went. -/
theorem head_without {front : PushWaiter} (first : front ∈ (without waiter line).head?) :
    front ∈ line.head? ∨ ∃ gone ∈ line.head?, waiter = some gone.id := by
  cases line with
  | nil => simp [without] at first
  | cons old rest =>
    by_cases own : waiter = some old.id
    · exact .inr ⟨old, rfl, own⟩
    · left
      simpa [without, own] using first

end PushWaiter

/-! ## Where no room is left -/

/-- The first in `line` does not fit beside a load of `load`. -/
def Shared.Blocks (shared : Shared α) (load : ℕ) (line : List PushWaiter) : Prop :=
  ∀ front ∈ line.head?, fits load front.weight shared.capacity = false

instance (shared : Shared α) (load : ℕ) (line : List PushWaiter) :
    Decidable (shared.Blocks load line) :=
  inferInstanceAs (Decidable (∀ front ∈ line.head?, _))

theorem Shared.Blocks.mono {shared : Shared α} {load : ℕ} {line : List PushWaiter}
    (blocks : shared.Blocks load line) (more : load ≤ load') : shared.Blocks load' line :=
  fun front first => fits_of_le (blocks front first) more

/-- Taking producers from the front stops at one that does not fit beside those taken. -/
theorem State.countAdmitted_blocks (shared : Shared α) (load : ℕ) (line : List PushWaiter) :
    shared.Blocks
      (load + weights (line.take (State.countAdmitted shared.capacity load line)))
      (line.drop (State.countAdmitted shared.capacity load line)) := by
  induction line generalizing load with
  | nil => simp [Blocks]
  | cons first rest ih =>
    by_cases admitted : fits load first.weight shared.capacity
    · simp only [State.countAdmitted, admitted, if_true, take_succ_cons, drop_succ_cons]
      refine (ih (saturatingAdd load first.weight)).mono ?_
      simp only [weights, map_cons, sum_cons, saturatingAdd]
      omega
    · simp only [State.countAdmitted, admitted, if_false, take_zero, drop_zero, Bool.false_eq_true]
      intro front isFirst
      obtain rfl : first = front := Option.some.inj isFirst
      exact fits_of_le (Bool.eq_false_iff.mpr admitted) (Nat.le_add_right _ _)

/-- Once room was offered to the line, whoever is first in it does not fit. -/
theorem Shared.release_blocks (shared : Shared α) (state : State α) :
    shared.Blocks (state.load + weights (shared.release state).1)
      (shared.release state).2.pushWakers := by
  have stops := State.countAdmitted_blocks shared state.load state.pushWakers
  simpa [release, State.takeAdmittedWaiters] using stops

theorem State.removePushWaiter_load (state : State α) (waiter : Option ℕ) :
    (state.removePushWaiter waiter).2.load = state.load := by
  cases waiter <;> rfl

@[simp] theorem Shared.accept_load (shared : Shared α) (state : State α) (payload : α)
    (weight : ℕ) :
    (shared.accept state payload weight).2.2.load = wrappingAdd state.load weight := by
  simp [accept, State.nextSequence, State.enqueue]

variable {parked : ParkedProducer}

theorem Shared.dropParked_none (shared : Shared α) (state : State α)
    (never : parked.waiter = none) : shared.dropParked parked state = ([], state) := by
  simp [dropParked, never]

variable {state : State α}

/-- A producer dropped in the line leaves it, and nothing else happens. -/
theorem Shared.dropParked_listed (shared : Shared α)
    {id : ℕ} (own : parked.waiter = some id) (listed : id ∈ state.pushWakers.map PushWaiter.id) :
    shared.dropParked parked state = ([], (state.removePushWaiter (some id)).2) := by
  have shorter : (state.pushWakers.filter fun candidate => candidate.id ≠ id).length ≠
      state.pushWakers.length := by
    rw [Ne, length_filter_eq_length_iff]
    intro all
    obtain ⟨registration, among, same⟩ := mem_map.mp listed
    exact of_decide_eq_true (all registration among) same
  have still : (state.removePushWaiter (some id)).1 = true := decide_eq_true shorter
  simp only [dropParked, own, still, if_true]

/-- A producer dropped after it was taken out of the line has its room offered on. -/
theorem Shared.dropParked_taken (shared : Shared α)
    {id : ℕ} (own : parked.waiter = some id) (missing : id ∉ state.pushWakers.map PushWaiter.id) :
    shared.dropParked parked state = state.takeAdmittedWaiters shared.capacity := by
  have same : (state.pushWakers.filter fun candidate => candidate.id ≠ id) = state.pushWakers := by
    rw [filter_eq_self]
    intro registration among
    exact decide_eq_true fun own => missing (mem_map.mpr ⟨registration, among, own⟩)
  simp only [dropParked, own, State.removePushWaiter, same]
  simp

namespace World

/-- The first in the line does not fit beside the load and the producers on their way. -/
def Full (shared : Shared α) (w : World α) : Prop :=
  shared.Blocks (w.queue.load + weights w.chosen) w.queue.pushWakers

/-- What `e` gives back without offering it is of no use to the next in line: a
producer dropped in the line leaves one behind it that does not fit either, and
so does one that was woken and has to park again. -/
def Forgoes (shared : Shared α) (w : World α) : Event α → Prop
  | .dropPush producer => ∀ push ∈ w.producers[producer]?.join, ∀ id ∈ push.parked.waiter,
      id ∈ w.queue.pushWakers.map PushWaiter.id →
      shared.Blocks (w.queue.load + weights w.chosen)
        (without (some id) w.queue.pushWakers)
  | .pollPush producer _ => ∀ push ∈ w.producers[producer]?.join, ∀ id ∈ push.parked.waiter,
      id ∈ w.chosen.map PushWaiter.id →
      w.queue.admits push.parked.weight shared.capacity = false →
      shared.Blocks (w.queue.load + weights (without (some id) w.chosen))
        w.queue.pushWakers
  | _ => True

instance (shared : Shared α) (w : World α) : (e : Event α) → Decidable (w.Forgoes shared e)
  | .dropPush producer =>
    inferInstanceAs (Decidable (∀ push ∈ w.producers[producer]?.join, ∀ id ∈ push.parked.waiter,
      _ → _))
  | .pollPush producer _ =>
    inferInstanceAs (Decidable (∀ push ∈ w.producers[producer]?.join, ∀ id ∈ push.parked.waiter,
      _ → _ → _))
  | .tryPush _ | .push _ | .tryPop | .pollPop _ | .takeQueued | .cloneSender | .dropSender
  | .dropReceiver => .isTrue trivial

end World

/-! ## What is registered is what is waited for -/

/-- The weights registered and those of the pushes in progress are one function
of the place in line. -/
structure Agrees (producers : List (Option (Push α))) (line : List PushWaiter)
    (weight : ℕ → ℕ) : Prop where
  registered : ∀ registration ∈ line, registration.weight = weight registration.id
  waiting : ∀ (producer : ℕ) (push : Push α), producers[producer]? = some (some push) →
    push.payload.isSome → ∀ id, push.parked.waiter = some id → push.parked.weight = weight id

namespace Agrees

variable {producers : List (Option (Push α))} {line line' : List PushWaiter} {weight : ℕ → ℕ}

section

variable (agrees : Agrees producers line weight)
include agrees

theorem subset (fewer : line' ⊆ line) : Agrees producers line' weight where
  registered registration among := agrees.registered registration (fewer among)
  waiting := agrees.waiting

theorem append {push : Push α}
    (never : push.parked.waiter = none) : Agrees (producers ++ [some push]) line weight where
  registered := agrees.registered
  waiting producer own held waits id isOwn := by
    rw [List.getElem?_append] at held
    split at held
    · exact agrees.waiting producer own held waits id isOwn
    · obtain rfl : own = push := by simpa using mem_of_getElem? held
      rw [never] at isOwn
      cases isOwn

theorem set (producer : ℕ) {new : Option (Push α)}
    (right : ∀ push ∈ new, ∀ id ∈ push.parked.waiter, push.parked.weight = weight id) :
    Agrees (producers.set producer new) line weight where
  registered := agrees.registered
  waiting other own held waits id isOwn := by
    rcases Stepped.pending_set held with same | before
    · exact right own same id isOwn
    · exact agrees.waiting other own before waits id isOwn

/-- A place not given out before may have any weight. -/
theorem update {next : ℕ} (placed : Placed producers next (line.map PushWaiter.id)) (new : ℕ) :
    Agrees producers line (Function.update weight next new) where
  registered registration among := by
    have below := placed.fresh _ (placed.owned _ (mem_map_of_mem among))
    rw [Function.update_of_ne below.ne, agrees.registered registration among]
  waiting producer push held waits id isOwn := by
    have below := placed.fresh id ⟨producer, push, held, isOwn, waits⟩
    rw [Function.update_of_ne below.ne, agrees.waiting producer push held waits id isOwn]

theorem register {waiter : PushWaiter}
    (right : waiter.weight = weight waiter.id) (fewer : line' ⊆ line) :
    ∀ registration ∈ ParkedProducer.register waiter line',
      registration.weight = weight registration.id := by
  intro registration among
  have pair : (registration.id, registration.weight) ∈
      (ParkedProducer.register waiter line').map fun other => (other.id, other.weight) :=
    mem_map.mpr ⟨registration, among, rfl⟩
  rw [ParkedProducer.register_map _ fun _ _ => rfl] at pair
  have old : ∀ other ∈ line', other.weight = weight other.id :=
    fun other listed => agrees.registered other (fewer listed)
  split at pair
  · obtain ⟨other, listed, same⟩ := mem_map.mp pair
    obtain ⟨id, weight⟩ := Prod.mk.inj same
    rw [← weight, ← id, old other listed]
  · rcases mem_append.mp pair with listed | last
    · obtain ⟨other, listed, same⟩ := mem_map.mp listed
      obtain ⟨id, weight⟩ := Prod.mk.inj same
      rw [← weight, ← id, old other listed]
    · obtain ⟨id, weight⟩ := Prod.mk.inj (mem_singleton.mp last)
      rw [weight, id, right]

end

end Agrees

def World.Agree (w : World α) (weight : ℕ → ℕ) : Prop :=
  Agrees w.producers (w.queue.pushWakers ++ w.chosen) weight

namespace Stepped

variable {shared : Shared α} {w w' : World α} {e : Event α} {weight : ℕ → ℕ}

variable {push : Push α} {producer : ℕ} {payload : α} {waker : Waker}

/-- A producer that parks registers the weight it waits for, under its place or a new one. -/
theorem agree_of_park
    (placed : Placed w.producers w.queue.nextPushWaiter w.ids) (agree : w.Agree weight)
    (pending : w.Pending producer push payload) : ∃ weight, Agrees
      (w.producers.set producer (some { push with parked := (push.parked.park w.queue waker).1 }))
      ((push.parked.park w.queue waker).2.pushWakers ++
        without push.parked.waiter w.chosen) weight := by
  have waits : push.payload.isSome := by simp [pending.waits]
  have fewer := (without_sublist push.parked.waiter w.chosen).subset
  unfold ParkedProducer.park
  cases own : push.parked.waiter with
  | none =>
    have fresh := Agrees.update agree placed push.parked.weight
    rw [own] at fewer
    refine ⟨_, Agrees.set ⟨?_, fresh.waiting⟩ producer ?_⟩
    · intro registration among
      rcases mem_append.mp among with listed | taken
      · refine fresh.register ?_ (subset_append_left _ _) registration listed
        simp
      · exact fresh.registered registration (mem_append_right _ (fewer taken))
    · rintro _ ⟨⟩ id ⟨⟩
      simp
  | some id =>
    have right := agree.waiting producer push pending.held waits id own
    rw [own] at fewer
    refine ⟨weight, Agrees.set ⟨?_, agree.waiting⟩ producer ?_⟩
    · intro registration among
      rcases mem_append.mp among with listed | taken
      · exact Agrees.register agree right (subset_append_left _ _) registration listed
      · exact agree.registered registration (mem_append_right _ (fewer taken))
    · rintro _ ⟨⟩ other isOwn
      obtain rfl : id = other := Option.some.inj (own.symm.trans isOwn)
      exact right

theorem agree (stepped : Stepped shared w e w')
    (placed : Placed w.producers w.queue.nextPushWaiter w.ids) (agree : w.Agree weight) :
    ∃ weight, w'.Agree weight := by
  have taken_subset : ∀ (count : ℕ) {line chosen : List PushWaiter}, line ⊆ w.queue.pushWakers →
      chosen ⊆ w.chosen →
      line.drop count ++ (chosen ++ line.take count) ⊆ w.queue.pushWakers ++ w.chosen := by
    intro count line chosen listed taken registration among
    simp only [mem_append] at among ⊢
    rcases among with behind | before | front
    · exact .inl (listed (mem_of_mem_drop behind))
    · exact .inr (taken before)
    · exact .inl (listed (mem_of_mem_take front))
  cases stepped with
  | refused | idle => exact ⟨weight, agree⟩
  | offered | closed => exact ⟨weight, Agrees.subset agree (by simp)⟩
  | created payload => exact ⟨weight, Agrees.append agree rfl⟩
  | @turnedAway producer push _ _ pending =>
    refine ⟨weight, Agrees.set (Agrees.subset agree ?_) producer (by rintro _ ⟨⟩ id ⟨⟩)⟩
    rw [State.removePushWaiter_pushWakers]
    exact ((without_sublist _ _).append (without_sublist _ _)).subset
  | @pushed producer push _ _ pending =>
    refine ⟨weight, Agrees.set (Agrees.subset agree ?_) producer (by rintro _ ⟨⟩ id ⟨⟩)⟩
    rw [accept_pushWakers, State.removePushWaiter_pushWakers]
    exact ((without_sublist _ _).append (without_sublist _ _)).subset
  | parked pending => exact agree_of_park placed agree pending
  | @dropped producer push held =>
    obtain ⟨count, taken, kept, _⟩ := shared.dropParked_line w.queue push.parked
    refine ⟨weight, Agrees.set (Agrees.subset agree ?_) producer (by rintro _ ⟨⟩)⟩
    rw [taken, kept]
    exact taken_subset count (without_sublist _ _).subset
      (without_sublist _ _).subset
  | @served _ _ rest serving =>
    obtain ⟨_, _, same⟩ := shared.dequeue_moves w.queue serving
    obtain ⟨count, taken, kept⟩ := shared.release_line rest
    refine ⟨weight, Agrees.subset agree ?_⟩
    simp only [taken, kept]
    rw [same]
    exact taken_subset count (List.Subset.refl _) (List.Subset.refl _)
  | emptied =>
    obtain ⟨count, taken, kept⟩ := shared.release_line { w.queue with buf := [], load := 0 }
    refine ⟨weight, Agrees.subset agree ?_⟩
    simp only [takeQueued, taken, kept]
    exact taken_subset count (List.Subset.refl _) (List.Subset.refl _)

/-! ## What keeps the queue full -/

/-- The admitted event of a producer adds at least what the producer was counted
for, and one that was first in the line leaves no room at all. -/
theorem full_of_pushed
    (pending : w.Pending producer push payload) (sound : w.Sound shared) (agree : w.Agree weight)
    (admitted : w.queue.admits push.parked.weight shared.capacity) (full : w.Full shared) :
    shared.Blocks (wrappingAdd w.queue.load push.parked.weight +
        weights (without push.parked.waiter w.chosen))
      (without push.parked.waiter w.queue.pushWakers) := by
  intro front first
  have apart := sound.attended.placed.apart
  rw [World.ids, map_append] at apart
  have sized : push.parked.weight ≤ usizeMax := by
    rw [sound.sized producer push payload pending]
    exact (shared.weightOf_sized payload).2
  have exact_load : ∀ other ∈ w.queue.pushWakers.head?, wrappingAdd w.queue.load push.parked.weight =
      w.queue.load + push.parked.weight := fun other isFirst =>
    wrappingAdd_eq admitted sized (fits_eq_false_iff.mp (full other isFirst)).2.2
  have total : weights w.chosen ≤
      weights (without push.parked.waiter w.chosen) + push.parked.weight := by
    cases own : push.parked.waiter with
    | none =>
      rw [without_eq_self (by simp)]
      exact Nat.le_add_right _ _
    | some id =>
      refine PushWaiter.weights_le_without (nodup_append.mp apart).2.1
        fun registration taken isOwn => ?_
      rw [agree.registered registration (mem_append_right _ taken), isOwn]
      exact (agree.waiting producer push pending.held (by simp [pending.waits]) id own).symm
  rcases head_without first with same | ⟨gone, wasFirst, own⟩
  · rw [exact_load front same]
    exact fits_of_le (full front same) (by omega)
  -- It is in the line, so not among those woken, whose weights stay.
  have listed : gone ∈ w.queue.pushWakers := mem_of_mem_head? wasFirst
  have others : without push.parked.waiter w.chosen = w.chosen := by
    refine without_eq_self fun id isOwn taken => ?_
    obtain rfl : gone.id = id := Option.some.inj (own.symm.trans isOwn)
    exact disjoint_of_nodup_append apart (mem_map_of_mem listed) taken
  have counted : gone.weight = push.parked.weight := by
    rw [agree.registered gone (mem_append_left _ listed)]
    exact (agree.waiting producer push pending.held (by simp [pending.waits]) gone.id own).symm
  rw [exact_load gone wasFirst, others]
  exact fits_behind (full gone wasFirst) (by omega)

/-- The first in line after a producer parked is who was first, or the producer
itself, which found no room. -/
theorem blocks_of_park {taken : ℕ}
    (refused : w.queue.admits push.parked.weight shared.capacity = false)
    (blocks : shared.Blocks (w.queue.load + taken) w.queue.pushWakers) :
    shared.Blocks (w.queue.load + taken) (push.parked.park w.queue waker).2.pushWakers := by
  have line : ∃ id, (push.parked.park w.queue waker).2.pushWakers =
      ParkedProducer.register ⟨id, push.parked.weight, waker⟩ w.queue.pushWakers := by
    unfold ParkedProducer.park
    cases push.parked.waiter with
    | none => exact ⟨_, rfl⟩
    | some id => exact ⟨id, rfl⟩
  obtain ⟨id, line⟩ := line
  intro front first
  have here : front.weight ∈
      ((push.parked.park w.queue waker).2.pushWakers.map PushWaiter.weight).head? := by
    rw [List.head?_map]
    exact Option.mem_map_of_mem _ first
  rw [line, ParkedProducer.register_map _ fun _ _ => rfl] at here
  have itself : fits (w.queue.load + taken) push.parked.weight shared.capacity = false :=
    fits_of_le refused (Nat.le_add_right _ _)
  cases before : w.queue.pushWakers with
  | nil =>
    have same : push.parked.weight = front.weight := by simpa [before] using here
    rw [← same]
    exact itself
  | cons old rest =>
    have same : old.weight = front.weight := by
      rw [before] at here
      split at here
      · simpa using here
      · simpa using here
    rw [← same]
    exact blocks old (by simp [before])

/-- A producer dropped in the line was not counted, one dropped outside it has
its room offered on. -/
theorem full_of_dropped (held : w.producers[producer]? = some (some push)) (sound : w.Sound shared)
    (full : w.Full shared) (forgoes : w.Forgoes shared (.dropPush producer)) : shared.Blocks
      ((shared.dropParked push.parked w.queue).2.load +
        weights (without push.parked.waiter w.chosen ++
          (shared.dropParked push.parked w.queue).1))
      (shared.dropParked push.parked w.queue).2.pushWakers := by
  cases own : push.parked.waiter with
  | none =>
    rw [dropParked_none shared w.queue own, without_eq_self (by simp), append_nil]
    exact full
  | some id =>
    by_cases listed : id ∈ w.queue.pushWakers.map PushWaiter.id
    · have behind := forgoes push (by rw [held]; rfl) id own listed
      have others : without (some id) w.chosen = w.chosen := by
        refine without_eq_self fun other isOwn taken => ?_
        obtain rfl : id = other := Option.some.inj isOwn
        have apart := sound.attended.placed.apart
        rw [World.ids, map_append] at apart
        exact disjoint_of_nodup_append apart listed taken
      rw [dropParked_listed shared own listed, others, append_nil,
        State.removePushWaiter_pushWakers]
      exact behind
    · have stops := State.countAdmitted_blocks shared w.queue.load w.queue.pushWakers
      rw [dropParked_taken shared own listed]
      refine stops.mono ?_
      simp only [State.takeAdmittedWaiters, weights_append]
      omega

/-- Every step that gives back no room the next in line could use keeps the queue full. -/
theorem full (stepped : Stepped shared w e w') (sound : w.Sound shared) (agree : w.Agree weight)
    (full : w.Full shared) (forgoes : w.Forgoes shared e) : w'.Full shared := by
  cases stepped with
  | refused | created | idle => exact full
  | offered payload admitted =>
    intro front first
    rw [accept_pushWakers] at first
    have refused := full front first
    rw [accept_load,
      wrappingAdd_eq admitted (shared.weightOf_sized payload).2 (fits_eq_false_iff.mp refused).2.2]
    refine fits_of_le refused ?_
    dsimp only
    omega
  | turnedAway _ gone =>
    intro front first
    simp [State.removePushWaiter_pushWakers, without,
      sound.attended.closed gone] at first
  | pushed pending admitted =>
    have blocks := full_of_pushed pending sound agree admitted full
    simpa [World.Full, State.removePushWaiter_pushWakers, State.removePushWaiter_load] using blocks
  | @parked producer push _ waker pending alive refused =>
    have load : (push.parked.park w.queue waker).2.load = w.queue.load := by
      unfold ParkedProducer.park
      cases push.parked.waiter <;> rfl
    rw [World.Full, load]
    refine blocks_of_park refused ?_
    by_cases taken : ∃ id ∈ push.parked.waiter, id ∈ w.chosen.map PushWaiter.id
    · obtain ⟨id, own, taken⟩ := taken
      have behind := forgoes push (by rw [pending.held]; rfl) id own taken refused
      rw [show push.parked.waiter = some id from own]
      exact behind
    · have others : without push.parked.waiter w.chosen = w.chosen :=
        without_eq_self fun id own among => taken ⟨id, own, among⟩
      rw [others]
      exact full
  | dropped held => exact full_of_dropped held sound full forgoes
  | @served _ _ rest serving =>
    refine (shared.release_blocks rest).mono ?_
    simp only [release_load, weights_append]
    omega
  | emptied =>
    refine (shared.release_blocks { w.queue with buf := [], load := 0 }).mono ?_
    simp only [takeQueued, release_load, weights_append]
    omega
  | closed =>
    intro front first
    cases first

end Stepped

/-- In a run that gives back no room the next in line could use, no room is left
beside a waiting producer: once every producer taken out of the line has been
polled or dropped, the first in the line does not fit. -/
theorem no_room_beside_the_line {shared : Shared α} {es : List (Event α)} {w : World α}
    (run : (system shared).Run (fun _ w e => w.Forgoes shared e) es w)
    (settled : w.chosen = []) :
    ∀ front ∈ w.queue.pushWakers.head?, w.queue.admits front.weight shared.capacity = false := by
  have inv : w.Sound shared ∧ (∃ weight, w.Agree weight) ∧ w.Full shared := by
    refine run.invariant (P := fun _ w => w.Sound shared ∧ (∃ weight, w.Agree weight) ∧
      w.Full shared) ⟨World.sound_init shared, ⟨fun _ => 0, ?_⟩, ?_⟩ ?_
    · exact ⟨by simp [system], by simp [system]⟩
    · simp [World.Full, Blocks, system]
    rintro _ before _ _ ⟨sound, ⟨weight, agree⟩, full⟩ forgoes step
    have stepped := World.stepped step
    exact ⟨stepped.sound sound, stepped.agree sound.attended.placed agree,
      stepped.full sound agree full forgoes⟩
  intro front first
  have refused := inv.2.2 front first
  rw [settled] at refused
  exact refused

theorem ten_pos : 0 < 10 := by decide

/-- A queue of capacity 10 whose events weigh what they are. -/
def ten : Shared ℕ where
  capacity := 10
  policy := .fifo
  weigh payload := min payload usizeMax
  capacity_pos := ten_pos
  capacity_le := by decide
  watermarks := by simp
  weigh_le _ := min_le_right _ _

/-- Of two producers that wait for room for 3, the first is woken and served and
the second still does not fit. -/
theorem no_room_beside_the_line_of_ten :
    ∃ w, (system ten).Run (fun _ w e => w.Forgoes ten e)
        [.tryPush 3, .tryPush 6, .push 3, .push 3, .pollPush 0 7, .pollPush 1 8, .tryPop,
          .pollPush 0 7] w ∧
      w.chosen = [] ∧ w.queue.pushWakers = [⟨1, 3, 8⟩] ∧
      ∀ front ∈ w.queue.pushWakers.head?, w.queue.admits front.weight ten.capacity = false := by
  have replay : (((system ten).restrict fun w e => decide (w.Forgoes ten e)).exec
      [.tryPush 3, .tryPush 6, .push 3, .push 3, .pollPush 0 7, .pollPush 1 8, .tryPop,
        .pollPush 0 7]).map (fun w => (w.chosen, w.queue.pushWakers)) =
      some ([], [⟨1, 3, 8⟩]) := by
    decide +kernel
  obtain ⟨w, reached, seen⟩ := System.exists_run replay
  obtain ⟨settled, line⟩ := Prod.mk.inj seen
  have run := reached.of_restrict.mono
    fun _ _ _ meets => of_decide_eq_true meets
  exact ⟨w, run, settled, line, no_room_beside_the_line run settled⟩

/-- A producer of 5 and behind it one of 2 wait beside a load of 9, which falls
to 8; the first still does not fit and is dropped, and the second fits and is not woken.  And beside a load of 5
a producer of 5 is woken and one of 4 is not; another event takes 1, the woken
producer parks again, and the one of 4 fits and is not woken. -/
theorem room_beside_the_line :
    (∃ w, (system ten).Run System.anyStep
        [.tryPush 1, .tryPush 8, .push 5, .push 2, .pollPush 0 7, .pollPush 1 8, .tryPop,
          .dropPush 0] w ∧
      w.queue.receiverAlive = true ∧ w.chosen = [] ∧ w.queue.pushWakers = [⟨1, 2, 8⟩] ∧
      w.queue.admits 2 ten.capacity = true) ∧
    ∃ w, (system ten).Run System.anyStep
        [.tryPush 5, .tryPush 5, .push 5, .push 4, .pollPush 0 7, .pollPush 1 8, .tryPop,
          .tryPush 1, .pollPush 0 7] w ∧
      w.queue.receiverAlive = true ∧ w.chosen = [] ∧
      w.queue.pushWakers = [⟨1, 4, 8⟩, ⟨0, 5, 7⟩] ∧ w.queue.admits 4 ten.capacity = true := by
  constructor
  · have replay : ((system ten).exec
        [.tryPush 1, .tryPush 8, .push 5, .push 2, .pollPush 0 7, .pollPush 1 8, .tryPop,
          .dropPush 0]).map
        (fun w => (w.queue.receiverAlive, w.chosen, w.queue.pushWakers,
          w.queue.admits 2 ten.capacity)) = some (true, [], [⟨1, 2, 8⟩], true) := by
      decide +kernel
    obtain ⟨w, reached, seen⟩ := Option.map_eq_some_iff.mp replay
    simp only [Prod.mk.injEq] at seen
    exact ⟨w, System.run_of_exec reached, seen⟩
  · have replay : ((system ten).exec
        [.tryPush 5, .tryPush 5, .push 5, .push 4, .pollPush 0 7, .pollPush 1 8, .tryPop,
          .tryPush 1, .pollPush 0 7]).map
        (fun w => (w.queue.receiverAlive, w.chosen, w.queue.pushWakers,
          w.queue.admits 4 ten.capacity)) =
        some (true, [], [⟨1, 4, 8⟩, ⟨0, 5, 7⟩], true) := by
      decide +kernel
    obtain ⟨w, reached, seen⟩ := System.exists_run replay
    simp only [Prod.mk.injEq] at seen
    exact ⟨w, reached, seen⟩

end E6irc.Queue
