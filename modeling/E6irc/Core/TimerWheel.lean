import E6irc.Base.Machine

/-!
# The timer wheel

`src/core/timer.rs`: timers in a ring of buckets, one for each tick up to the number of
slots.  A bucket holds the timers of every turn of the wheel, so draining it leaves those
of later turns; a clock that jumps a whole turn drains every bucket at once.

`Agenda` is what the wheel is for: a clock, and the deadlines not yet reached.  The wheel
answers as its agenda does (`apply_simulates`), whichever way it advances; and the agenda
gives each payload to the first advance that reaches its deadline (`timers_fire_once`).
-/

namespace E6irc

open Base List

universe u

structure Timed (T : Type u) where
  tick : ℕ
  payload : T

structure TimerWheel (T : Type u) where
  resolution : ℕ+
  tick : ℕ
  buckets : List (List (Timed T))
  slotted : 0 < buckets.length

namespace TimerWheel

variable {T : Type u}

def new (now : ℕ) (resolution slots : ℕ+) : TimerWheel T where
  resolution := resolution
  tick := now / resolution
  buckets := List.replicate slots []
  slotted := by simp

/-- The slot of a tick. -/
def slot (wheel : TimerWheel T) (tick : ℕ) : Fin wheel.buckets.length :=
  ⟨tick % wheel.buckets.length, Nat.mod_lt _ wheel.slotted⟩

/-- The wheel with another bucket in a slot. -/
def setBucket (wheel : TimerWheel T) (slot : Fin wheel.buckets.length) (bucket : List (Timed T)) :
    TimerWheel T where
  resolution := wheel.resolution
  tick := wheel.tick
  buckets := wheel.buckets.set slot bucket
  slotted := by simpa using wheel.slotted

def schedule (wheel : TimerWheel T) (deadline : ℕ) (payload : T) : TimerWheel T :=
  let tick := max (deadline / wheel.resolution) wheel.tick
  wheel.setBucket (wheel.slot tick) (wheel.buckets.get (wheel.slot tick) ++ [⟨tick, payload⟩])

/-- The payloads of a bucket due at `tick`, and the timers it keeps. -/
def drainBucket (bucket : List (Timed T)) (tick : ℕ) : List T × List (Timed T) :=
  let (ready, pending) := bucket.partition (·.tick ≤ tick)
  (ready.map Timed.payload, pending)

def drainCurrent (wheel : TimerWheel T) : List T × TimerWheel T :=
  let (ready, pending) := drainBucket (wheel.buckets.get (wheel.slot wheel.tick)) wheel.tick
  (ready, wheel.setBucket (wheel.slot wheel.tick) pending)

/-- Every bucket drained at the tick the clock has jumped to. -/
def drainAll (wheel : TimerWheel T) (tick : ℕ) : List T × TimerWheel T :=
  (wheel.buckets.flatMap fun bucket => (drainBucket bucket tick).1,
    { wheel with
      tick := tick
      buckets := wheel.buckets.map fun bucket => (drainBucket bucket tick).2
      slotted := by simpa using wheel.slotted })

/-- The loop of `advance`: as many rounds as the target is ahead, one tick each. -/
def turn (wheel : TimerWheel T) : ℕ → List T × TimerWheel T
  | 0 => ([], wheel)
  | rounds + 1 =>
    let (ready, next) := drainCurrent { wheel with tick := wheel.tick + 1 }
    let (more, last) := next.turn rounds
    (ready ++ more, last)

/-- Every timer due at or before `now`. -/
def advance (wheel : TimerWheel T) (now : ℕ) : List T × TimerWheel T :=
  let target := now / wheel.resolution
  let (due, drained) := wheel.drainCurrent
  if wheel.buckets.length ≤ target - wheel.tick then
    let (more, last) := drained.drainAll target
    (due ++ more, last)
  else
    let (more, last) := drained.turn (target - wheel.tick)
    (due ++ more, last)

/-! ## The timers held -/

/-- The timers of every bucket. -/
def pending (wheel : TimerWheel T) : Multiset (Timed T) :=
  wheel.buckets.flatten

/-- Each timer is in the slot of its tick, and none is behind the wheel. -/
structure Placed (wheel : TimerWheel T) : Prop where
  slots : ∀ (slot : ℕ) bucket, wheel.buckets[slot]? = some bucket →
    ∀ timer ∈ bucket, timer.tick % wheel.buckets.length = slot
  ahead : ∀ timer ∈ wheel.pending, wheel.tick ≤ timer.tick

/-- The payloads due at a tick. -/
def due (timers : Multiset (Timed T)) (tick : ℕ) : Multiset T :=
  (timers.filter (·.tick ≤ tick)).map Timed.payload

/-- The timers that are not due. -/
def later (timers : Multiset (Timed T)) (tick : ℕ) : Multiset (Timed T) :=
  timers.filter (tick < ·.tick)

variable {wheel : TimerWheel T}

theorem due_add (timers others : Multiset (Timed T)) (tick : ℕ) :
    due (timers + others) tick = due timers tick + due others tick := by
  rw [due, Multiset.filter_add, Multiset.map_add]
  rfl

theorem later_add (timers others : Multiset (Timed T)) (tick : ℕ) :
    later (timers + others) tick = later timers tick + later others tick :=
  Multiset.filter_add _ _ _

/-- Timers that are all ahead of a tick. -/
theorem due_of_ahead {timers : Multiset (Timed T)} {tick : ℕ}
    (ahead : ∀ timer ∈ timers, tick < timer.tick) :
    due timers tick = 0 ∧ later timers tick = timers := by
  have none : timers.filter (·.tick ≤ tick) = 0 :=
    Multiset.filter_eq_nil.mpr fun timer held => Nat.not_le_of_lt (ahead timer held)
  rw [due, none]
  exact ⟨rfl, Multiset.filter_eq_self.mpr ahead⟩

theorem due_add_later (timers : Multiset (Timed T)) (tick : ℕ) :
    timers.filter (·.tick ≤ tick) + later timers tick = timers := by
  have part := Multiset.filter_add_not (fun timer : Timed T => timer.tick ≤ tick) timers
  simp only [not_le] at part
  exact part

/-- What is due at a later tick: what is due now, and then of the others. -/
theorem due_trans (timers : Multiset (Timed T)) {tick next : ℕ} (forward : tick ≤ next) :
    due timers tick + due (later timers tick) next = due timers next ∧
      later (later timers tick) next = later timers next := by
  have now : due (timers.filter (·.tick ≤ tick)) next = due timers tick := by
    rw [due, Multiset.filter_filter]
    refine congrArg _ (Multiset.filter_congr fun timer _ => ?_)
    omega
  constructor
  · rw [← now, ← due_add, due_add_later]
  · rw [later, later, Multiset.filter_filter]
    refine Multiset.filter_congr fun timer _ => ?_
    omega

theorem drainBucket_eq (bucket : List (Timed T)) (tick : ℕ) :
    ((drainBucket bucket tick).1 : Multiset T) = due bucket tick ∧
      ((drainBucket bucket tick).2 : Multiset (Timed T)) = later bucket tick := by
  simp only [drainBucket, partition_eq_filter_filter, due, later, Multiset.filter_coe,
    Multiset.map_coe, true_and]
  refine congrArg _ (filter_congr fun timer _ => ?_)
  rw [Function.comp_apply, ← decide_not]
  exact decide_eq_decide.mpr Nat.not_le

/-- A bucket replaced is its timers replaced among those held; the others are in other slots. -/
theorem flatten_set {buckets : List (List (Timed T))} {slot : ℕ} {old : List (Timed T)}
    (held : buckets[slot]? = some old) (bucket : List (Timed T)) :
    ∃ others : Multiset (Timed T),
      (buckets.flatten : Multiset (Timed T)) = old + others ∧
      ((buckets.set slot bucket).flatten : Multiset (Timed T)) = bucket + others ∧
      ∀ timer ∈ others, ∃ other held, other ≠ slot ∧ buckets[other]? = some held ∧ timer ∈ held := by
  induction buckets generalizing slot with
  | nil => cases held
  | cons first rest ih =>
    cases slot with
    | zero =>
      cases held
      refine ⟨rest.flatten, rfl, rfl, fun timer among => ?_⟩
      obtain ⟨other, place, inside⟩ := mem_flatten.mp among
      obtain ⟨j, found⟩ := mem_iff_getElem?.mp place
      exact ⟨j + 1, other, Nat.succ_ne_zero j, found, inside⟩
    | succ slot =>
      obtain ⟨others, before, after, elsewhere⟩ := ih held
      refine ⟨first + others, ?_, ?_, fun timer among => ?_⟩
      · rw [flatten_cons, ← Multiset.coe_add, before, add_left_comm]
      · rw [set_cons_succ, flatten_cons, ← Multiset.coe_add, after, add_left_comm]
      rcases Multiset.mem_add.mp among with here | there
      · exact ⟨0, first, (Nat.succ_ne_zero slot).symm, rfl, here⟩
      · obtain ⟨j, other, apart, found, inside⟩ := elsewhere timer there
        exact ⟨j + 1, other, fun same => apart (Nat.succ.inj same), found, inside⟩

/-- The timers of a slot, replaced by others of the same slot that are not behind. -/
theorem Placed.setBucket (placed : wheel.Placed) (slot : Fin wheel.buckets.length)
    (bucket : List (Timed T))
    (here : ∀ timer ∈ bucket, timer.tick % wheel.buckets.length = slot ∧ wheel.tick ≤ timer.tick) :
    (wheel.setBucket slot bucket).Placed := by
  constructor
  · intro other held found timer inside
    change (wheel.buckets.set slot bucket)[other]? = some held at found
    change timer.tick % (wheel.buckets.set slot bucket).length = other
    rw [length_set]
    rcases eq_or_ne other slot with rfl | apart
    · rw [List.getElem?_set_self slot.isLt] at found
      cases found
      exact (here timer inside).1
    · rw [List.getElem?_set_ne apart.symm] at found
      exact placed.slots other held found timer inside
  · intro timer among
    obtain ⟨others, before, after, -⟩ := flatten_set (List.getElem?_eq_getElem slot.isLt) bucket
    rw [pending, TimerWheel.setBucket, after] at among
    rcases Multiset.mem_add.mp among with inside | among
    · exact (here timer inside).2
    · refine placed.ahead timer ?_
      rw [pending, before]
      exact Multiset.mem_add.mpr (.inr among)

/-! ## What the operations do to them -/

theorem placed_new (now : ℕ) (resolution slots : ℕ+) :
    (new now resolution slots : TimerWheel T).Placed ∧
      (new now resolution slots : TimerWheel T).pending = 0 := by
  have none : (new now resolution slots : TimerWheel T).pending = 0 := by
    simp [pending, new]
  refine ⟨⟨fun slot bucket found timer inside => ?_, by simp [none]⟩, none⟩
  obtain ⟨-, empty⟩ := mem_replicate.mp (mem_of_getElem? found)
  subst empty
  cases inside

section

variable (placed : wheel.Placed)
include placed

/-- A timer is scheduled at its deadline's tick, or at the wheel's when that has passed. -/
theorem schedule_eq (deadline : ℕ) (payload : T) : (wheel.schedule deadline payload).Placed ∧
      (wheel.schedule deadline payload).pending =
        ⟨max (deadline / wheel.resolution) wheel.tick, payload⟩ ::ₘ wheel.pending := by
  rw [schedule]
  generalize same : max (deadline / wheel.resolution) wheel.tick = tick
  have found : wheel.buckets[(wheel.slot tick : ℕ)]? = some (wheel.buckets.get (wheel.slot tick)) :=
    List.getElem?_eq_getElem (wheel.slot tick).isLt
  constructor
  · refine placed.setBucket _ _ fun timer among => ?_
    rcases mem_append.mp among with inside | new
    · refine ⟨placed.slots _ _ found timer inside, placed.ahead timer ?_⟩
      exact mem_flatten.mpr ⟨_, getElem_mem _, inside⟩
    · obtain rfl := mem_singleton.mp new
      exact ⟨rfl, same ▸ Nat.le_max_right _ _⟩
  · obtain ⟨others, before, after, -⟩ :=
      flatten_set found (wheel.buckets.get (wheel.slot tick) ++ [⟨tick, payload⟩])
    rw [pending, setBucket, after, pending, before, ← Multiset.coe_add, add_right_comm,
      Multiset.coe_singleton, add_comm, Multiset.singleton_add]

/-- The slot of the wheel's tick holds every timer due, so draining it hands them out. -/
theorem drainCurrent_eq : (wheel.drainCurrent.1 : Multiset T) = due wheel.pending wheel.tick ∧
      wheel.drainCurrent.2.pending = later wheel.pending wheel.tick ∧ wheel.drainCurrent.2.Placed := by
  have found : wheel.buckets[(wheel.slot wheel.tick : ℕ)]? =
      some (wheel.buckets.get (wheel.slot wheel.tick)) :=
    List.getElem?_eq_getElem (wheel.slot wheel.tick).isLt
  obtain ⟨ready, kept⟩ := drainBucket_eq (wheel.buckets.get (wheel.slot wheel.tick)) wheel.tick
  obtain ⟨others, before, after, elsewhere⟩ :=
    flatten_set found (drainBucket (wheel.buckets.get (wheel.slot wheel.tick)) wheel.tick).2
  -- a timer of another slot is of another tick, and none is behind the wheel
  have ahead : ∀ timer ∈ others, wheel.tick < timer.tick := by
    intro timer among
    obtain ⟨other, bucket, apart, place, inside⟩ := elsewhere timer among
    have least := placed.ahead timer (by
      rw [pending, before]
      exact Multiset.mem_add.mpr (.inr among))
    refine Nat.lt_of_le_of_ne least fun same => apart ?_
    rw [← placed.slots other bucket place timer inside, ← same]
    rfl
  obtain ⟨none, all⟩ := due_of_ahead ahead
  refine ⟨?_, ?_, placed.setBucket _ (drainBucket _ _).2 fun timer among => ?_⟩
  · rw [pending, before, due_add, none, add_zero]
    exact ready
  · rw [pending, pending, before, later_add, all, ← kept]
    exact after
  have inside : timer ∈ wheel.buckets.get (wheel.slot wheel.tick) := by
    rw [← Multiset.mem_coe, kept] at among
    exact Multiset.mem_of_mem_filter among
  exact ⟨placed.slots _ _ found timer inside,
    placed.ahead timer (mem_flatten.mpr ⟨_, getElem_mem _, inside⟩)⟩

theorem drainAll_eq (tick : ℕ) : ((wheel.drainAll tick).1 : Multiset T) = due wheel.pending tick ∧
      (wheel.drainAll tick).2.pending = later wheel.pending tick ∧ (wheel.drainAll tick).2.Placed := by
  have all (buckets : List (List (Timed T))) :
      ((buckets.flatMap fun bucket => (drainBucket bucket tick).1 : List T) : Multiset T) =
        due buckets.flatten tick ∧
      ((buckets.map fun bucket => (drainBucket bucket tick).2).flatten : Multiset (Timed T)) =
        later buckets.flatten tick := by
    induction buckets with
    | nil => exact ⟨rfl, rfl⟩
    | cons bucket buckets ih =>
      obtain ⟨ready, kept⟩ := drainBucket_eq bucket tick
      constructor
      · rw [flatMap_cons, flatten_cons, ← Multiset.coe_add, ← Multiset.coe_add, due_add,
          ready, ih.1]
      · rw [map_cons, flatten_cons, flatten_cons, ← Multiset.coe_add,
          ← Multiset.coe_add, later_add, kept, ih.2]
  obtain ⟨ready, kept⟩ := all wheel.buckets
  refine ⟨ready, kept, fun slot bucket found timer inside => ?_, fun timer among => ?_⟩
  · change (wheel.buckets.map fun bucket => (drainBucket bucket tick).2)[slot]? = some bucket at found
    change timer.tick % (wheel.buckets.map fun bucket => (drainBucket bucket tick).2).length = slot
    rw [List.getElem?_map, Option.map_eq_some_iff] at found
    obtain ⟨whole, place, rfl⟩ := found
    rw [← Multiset.mem_coe, (drainBucket_eq whole tick).2] at inside
    rw [length_map]
    exact placed.slots slot whole place timer (Multiset.mem_of_mem_filter inside)
  · have left : timer ∈ later wheel.pending tick := kept ▸ among
    exact Nat.le_of_lt (Multiset.mem_filter.mp left).2

/-- Some rounds of the loop hand out what becomes due in them. -/
theorem turn_eq (ahead : ∀ timer ∈ wheel.pending, wheel.tick < timer.tick) (rounds : ℕ) :
    ((wheel.turn rounds).1 : Multiset T) = due wheel.pending (wheel.tick + rounds) ∧
      (wheel.turn rounds).2.pending = later wheel.pending (wheel.tick + rounds) ∧
      (wheel.turn rounds).2.Placed ∧ (wheel.turn rounds).2.tick = wheel.tick + rounds ∧
      (wheel.turn rounds).2.resolution = wheel.resolution := by
  induction rounds generalizing wheel with
  | zero =>
    obtain ⟨none, all⟩ := due_of_ahead ahead
    exact ⟨none.symm, all.symm, placed, rfl, rfl⟩
  | succ rounds ih =>
    have ticked : Placed { wheel with tick := wheel.tick + 1 } := ⟨placed.slots, ahead⟩
    obtain ⟨ready, kept, next⟩ := drainCurrent_eq ticked
    obtain ⟨more, rest, last, clock, scale⟩ := ih next fun timer among => by
      rw [kept] at among
      exact (Multiset.mem_filter.mp among).2
    have forward : wheel.tick + 1 ≤ wheel.tick + 1 + rounds := Nat.le_add_right _ _
    obtain ⟨both, beyond⟩ := due_trans wheel.pending forward
    have same : wheel.tick + (rounds + 1) = wheel.tick + 1 + rounds := by omega
    rw [same, ← both, ← beyond]
    refine ⟨?_, ?_, last, clock, scale⟩
    · rw [turn, ← Multiset.coe_add, more, ready, kept]
      rfl
    · rw [turn, rest, kept]
      rfl

/-- An advance hands out what is due at the time it is given, or at the wheel's own when
that is later, whichever way it takes. -/
theorem advance_eq (now : ℕ) : let tick := max wheel.tick (now / wheel.resolution)
    ((wheel.advance now).1 : Multiset T) = due wheel.pending tick ∧
      (wheel.advance now).2.pending = later wheel.pending tick ∧
      (wheel.advance now).2.Placed ∧ (wheel.advance now).2.tick = tick ∧
      (wheel.advance now).2.resolution = wheel.resolution := by
  intro tick
  have latest : tick = max wheel.tick (now / wheel.resolution) := rfl
  clear_value tick
  obtain ⟨ready, kept, drained⟩ := drainCurrent_eq placed
  have forward : wheel.tick ≤ tick := by omega
  obtain ⟨both, beyond⟩ := due_trans wheel.pending forward
  have slotted := wheel.slotted
  rw [← both, ← beyond, ← ready, ← kept, advance]
  by_cases jump : wheel.buckets.length ≤ now / wheel.resolution - wheel.tick
  · have reached : tick = now / wheel.resolution := by omega
    obtain ⟨more, rest, last⟩ := drainAll_eq drained (now / wheel.resolution)
    simp only [if_pos jump]
    rw [← reached] at more rest last ⊢
    exact ⟨by rw [← Multiset.coe_add, more], rest, last, rfl, rfl⟩
  · have reached : wheel.tick + (now / wheel.resolution - wheel.tick) = tick := by omega
    obtain ⟨more, rest, last, clock, scale⟩ := turn_eq drained (fun timer among => by
      rw [kept] at among
      exact (Multiset.mem_filter.mp among).2) (now / wheel.resolution - wheel.tick)
    have here : wheel.drainCurrent.2.tick = wheel.tick := rfl
    rw [here, reached] at more rest clock
    simp only [if_neg jump]
    exact ⟨by rw [← Multiset.coe_add, more], rest, last, clock, scale⟩

end

/-! ## Calls -/

inductive Call (T : Type u) : Type u
  | schedule (deadline : ℕ) (payload : T)
  | advance (now : ℕ)

/-- One call; only an advance returns payloads. -/
def apply (wheel : TimerWheel T) : Call T → List T × TimerWheel T
  | .schedule deadline payload => ([], wheel.schedule deadline payload)
  | .advance now => wheel.advance now

end TimerWheel

open TimerWheel

/-- What a timer wheel is for: the tick it has come to, and what is owed at which tick. -/
structure Agenda (T : Type u) where
  clock : ℕ
  owed : Multiset (ℕ × T)

namespace Agenda

variable {T : Type u}

def apply (resolution : ℕ) (agenda : Agenda T) : Call T → Multiset T × Agenda T
  | .schedule deadline payload =>
    (0, { agenda with owed := (deadline / resolution, payload) ::ₘ agenda.owed })
  | .advance now =>
    let clock := max agenda.clock (now / resolution)
    ((agenda.owed.filter (·.1 ≤ clock)).map Prod.snd, ⟨clock, agenda.owed.filter (clock < ·.1)⟩)

/-- The wheel holds what its agenda owes, a deadline that has passed at the present tick. -/
structure Shows (resolution : ℕ+) (wheel : TimerWheel T) (agenda : Agenda T) : Prop where
  placed : wheel.Placed
  scale : wheel.resolution = resolution
  clock : wheel.tick = agenda.clock
  holds : wheel.pending.map (fun timer => (timer.tick, timer.payload)) =
    agenda.owed.map fun entry => (max entry.1 agenda.clock, entry.2)

variable {resolution : ℕ+} {wheel : TimerWheel T} {agenda : Agenda T}

theorem Shows.due (shows : Shows resolution wheel agenda) {tick : ℕ} (forward : agenda.clock ≤ tick) :
    TimerWheel.due wheel.pending tick = (agenda.owed.filter (·.1 ≤ tick)).map Prod.snd := by
  have same := congrArg (fun view => (view.filter (·.1 ≤ tick)).map Prod.snd) shows.holds
  simp only [Multiset.filter_map, Multiset.map_map, Function.comp_def] at same
  rw [TimerWheel.due, same]
  refine congrArg _ (Multiset.filter_congr fun entry _ => ?_)
  omega

theorem Shows.later (shows : Shows resolution wheel agenda) {tick : ℕ} (forward : agenda.clock ≤ tick) :
    (TimerWheel.later wheel.pending tick).map (fun timer => (timer.tick, timer.payload)) =
      (agenda.owed.filter (tick < ·.1)).map fun entry => (max entry.1 tick, entry.2) := by
  have same := congrArg (Multiset.filter (tick < ·.1)) shows.holds
  simp only [Multiset.filter_map, Function.comp_def] at same
  have ahead : agenda.owed.filter (fun entry => tick < max entry.1 agenda.clock) =
      agenda.owed.filter (tick < ·.1) :=
    Multiset.filter_congr fun entry _ => by omega
  rw [TimerWheel.later, same, ahead]
  refine Multiset.map_congr rfl fun entry among => ?_
  have beyond := (Multiset.mem_filter.mp among).2
  rw [Nat.max_eq_left (by omega), Nat.max_eq_left (Nat.le_of_lt beyond)]

/-- The wheel answers a call as its agenda does. -/
theorem apply_simulates (wheel : TimerWheel T) (agenda : Agenda T) (call : Call T)
    (shows : Shows resolution wheel agenda) :
    ((wheel.apply call).1 : Multiset T) = (agenda.apply resolution call).1 ∧
      Shows resolution (wheel.apply call).2 (agenda.apply resolution call).2 := by
  cases call with
  | schedule deadline payload =>
    obtain ⟨placed, held⟩ := schedule_eq shows.placed deadline payload
    refine ⟨rfl, placed, shows.scale, shows.clock, ?_⟩
    change (wheel.schedule deadline payload).pending.map _ = _
    rw [held, Multiset.map_cons, shows.holds, shows.scale, shows.clock, apply, Multiset.map_cons]
  | advance now =>
    obtain ⟨ready, left, placed, tick, scale⟩ := advance_eq shows.placed now
    rw [shows.scale] at ready left tick scale
    rw [shows.clock] at ready left tick
    have forward := Nat.le_max_left agenda.clock (now / resolution)
    refine ⟨ready.trans (shows.due forward), placed, scale, tick, ?_⟩
    change (wheel.advance now).2.pending.map _ = _
    rw [left, shows.later forward]
    rfl

end Agenda

/-! ## The first advance that reaches a deadline -/

namespace TimerWheel

variable {T : Type u}

/-- A call that scheduled a payload, and the calls made after it. -/
structure Scheduling (T : Type u) where
  deadline : ℕ
  payload : T
  after : List (Call T)

/-- The schedule calls of a sequence. -/
def schedulings : List (Call T) → Multiset (Scheduling T)
  | [] => 0
  | .schedule deadline payload :: after => ⟨deadline, payload, after⟩ ::ₘ schedulings after
  | .advance _ :: after => schedulings after

/-- The times of the advance calls. -/
def times (calls : List (Call T)) : List ℕ :=
  calls.filterMap fun
    | .schedule _ _ => none
    | .advance now => some now

/-- An advance to `now` has reached the deadline, in whole ticks. -/
def Scheduling.ReachedAt (resolution : ℕ) (scheduling : Scheduling T) (now : ℕ) : Prop :=
  scheduling.deadline / resolution ≤ now / resolution

instance (resolution : ℕ) (scheduling : Scheduling T) (now : ℕ) :
    Decidable (scheduling.ReachedAt resolution now) :=
  inferInstanceAs (Decidable (_ ≤ _))

/-- Some advance made after the scheduling has reached its deadline. -/
def Scheduling.Reached (resolution : ℕ) (scheduling : Scheduling T) : Prop :=
  ∃ now ∈ times scheduling.after, scheduling.ReachedAt resolution now

instance (resolution : ℕ) (scheduling : Scheduling T) : Decidable (scheduling.Reached resolution) :=
  inferInstanceAs (Decidable (∃ now ∈ times scheduling.after, scheduling.ReachedAt resolution now))

/-- The payloads whose deadline an advance to `now`, made after `calls`, is the first to reach. -/
def firstReached (resolution now : ℕ) (calls : List (Call T)) : Multiset T :=
  ((schedulings calls).filter fun scheduling =>
    scheduling.ReachedAt resolution now ∧ ¬ scheduling.Reached resolution).map Scheduling.payload

/-- The payloads whose deadline an advance among `calls` has reached. -/
def reached (resolution : ℕ) (calls : List (Call T)) : Multiset T :=
  ((schedulings calls).filter (Scheduling.Reached resolution)).map Scheduling.payload

/-- A scheduling with one more call after it. -/
def Scheduling.snoc (call : Call T) (scheduling : Scheduling T) : Scheduling T :=
  { scheduling with after := scheduling.after ++ [call] }

theorem schedulings_snoc (calls : List (Call T)) (call : Call T) :
    schedulings (calls ++ [call]) =
      (schedulings calls).map (Scheduling.snoc call) + schedulings [call] := by
  induction calls with
  | nil => simp [schedulings]
  | cons first calls ih =>
    cases first with
    | schedule deadline payload =>
      rw [cons_append, schedulings, ih, schedulings, Multiset.map_cons, Multiset.cons_add]
      rfl
    | advance now =>
      rw [cons_append, schedulings, ih, schedulings]

theorem times_snoc_schedule (calls : List (Call T)) (deadline : ℕ) (payload : T) :
    times (calls ++ [.schedule deadline payload]) = times calls := by
  simp [times]

theorem times_snoc_advance (calls : List (Call T)) (now : ℕ) :
    times (calls ++ [.advance now]) = times calls ++ [now] := by
  simp [times]

theorem reached_snoc_schedule (scheduling : Scheduling T) (resolution deadline : ℕ) (payload : T) :
    (scheduling.snoc (.schedule deadline payload)).Reached resolution ↔
      scheduling.Reached resolution := by
  rw [Scheduling.Reached, Scheduling.snoc, times_snoc_schedule]
  rfl

theorem reached_snoc_advance (scheduling : Scheduling T) (resolution now : ℕ) :
    (scheduling.snoc (.advance now)).Reached resolution ↔
      scheduling.Reached resolution ∨ scheduling.ReachedAt resolution now := by
  rw [Scheduling.Reached, Scheduling.snoc, times_snoc_advance]
  simp only [mem_append, mem_singleton, or_and_right, exists_or, exists_eq_left]
  rfl

/-- What is owed after some calls: the schedulings no advance has reached. -/
def unreached (resolution : ℕ) (calls : List (Call T)) : Multiset (ℕ × T) :=
  ((schedulings calls).filter fun scheduling => ¬ scheduling.Reached resolution).map fun scheduling =>
    (scheduling.deadline / resolution, scheduling.payload)

variable {resolution : ℕ}

theorem unreached_snoc_schedule (calls : List (Call T)) (deadline : ℕ) (payload : T) :
    unreached resolution (calls ++ [.schedule deadline payload]) =
        (deadline / resolution, payload) ::ₘ unreached resolution calls ∧
      reached resolution (calls ++ [.schedule deadline payload]) = reached resolution calls := by
  have fresh : ¬ Scheduling.Reached resolution ⟨deadline, payload, []⟩ := by
    simp [Scheduling.Reached, times]
  constructor
  · rw [unreached, schedulings_snoc, Multiset.filter_add, Multiset.map_add, Multiset.filter_map,
      Multiset.map_map, add_comm]
    simp only [schedulings, Function.comp_def, reached_snoc_schedule]
    rw [Multiset.filter_cons_of_pos (p := fun scheduling => ¬ Scheduling.Reached resolution scheduling)
      _ fresh]
    rfl
  · rw [reached, schedulings_snoc, Multiset.filter_add, Multiset.map_add, Multiset.filter_map,
      Multiset.map_map]
    simp only [schedulings, Function.comp_def, reached_snoc_schedule]
    rw [Multiset.filter_cons_of_neg _ fresh]
    exact add_zero _

theorem firstReached_eq (now : ℕ) (calls : List (Call T)) :
    firstReached resolution now calls =
      ((unreached resolution calls).filter (·.1 ≤ now / resolution)).map Prod.snd := by
  rw [unreached, Multiset.filter_map, Multiset.filter_filter, Multiset.map_map]
  rfl

theorem schedulings_snoc_advance (calls : List (Call T)) (now : ℕ) :
    schedulings (calls ++ [.advance now]) = (schedulings calls).map (Scheduling.snoc (.advance now)) := by
  rw [schedulings_snoc]
  exact add_zero _

theorem unreached_snoc_advance (calls : List (Call T)) (now : ℕ) :
    unreached resolution (calls ++ [.advance now]) =
      (unreached resolution calls).filter (now / resolution < ·.1) := by
  rw [unreached, schedulings_snoc_advance, unreached, Multiset.filter_map, Multiset.map_map,
    Multiset.filter_map, Multiset.filter_filter]
  refine congrArg _ (Multiset.filter_congr fun scheduling _ => ?_)
  rw [Function.comp_apply, reached_snoc_advance, not_or, and_comm, Scheduling.ReachedAt, not_le]
  rfl

theorem reached_snoc_advance_eq (calls : List (Call T)) (now : ℕ) :
    reached resolution (calls ++ [.advance now]) =
      reached resolution calls + firstReached resolution now calls := by
  have both := Multiset.filter_add_filter (Scheduling.Reached resolution)
    (fun scheduling => scheduling.ReachedAt resolution now ∧ ¬ scheduling.Reached resolution)
    (schedulings calls)
  have never : (schedulings calls).filter (fun scheduling => scheduling.Reached resolution ∧
      scheduling.ReachedAt resolution now ∧ ¬ scheduling.Reached resolution) = 0 :=
    Multiset.filter_eq_nil.mpr fun scheduling _ both => both.2.2 both.1
  rw [never, add_zero] at both
  rw [reached, schedulings_snoc_advance, Multiset.filter_map, Multiset.map_map, reached, firstReached,
    ← Multiset.map_add, both]
  refine congrArg _ (Multiset.filter_congr fun scheduling _ => ?_)
  rw [Function.comp_apply, reached_snoc_advance]
  tauto

variable (resolution) in
/-- With times that do not decrease, the agenda owes what no advance has reached. -/
theorem agenda_after {start : ℕ} {calls : List (Call T)}
    (ordered : (start :: times calls).Pairwise (· ≤ ·)) :
    let after := serve (Agenda.apply resolution) ⟨start / resolution, 0⟩ calls
    after.2.owed = unreached resolution calls ∧ after.1.sum = reached resolution calls ∧
      ∀ now, (∀ time ∈ start :: times calls, time ≤ now) → after.2.clock ≤ now / resolution := by
  induction calls using List.reverseRecOn with
  | nil => exact ⟨rfl, rfl, fun now later => Nat.div_le_div_right (later start mem_cons_self)⟩
  | append_singleton calls call ih =>
    cases call with
    | schedule deadline payload =>
      rw [times_snoc_schedule] at ordered ⊢
      obtain ⟨owed, given, clock⟩ := ih ordered
      rw [serve_snoc, (unreached_snoc_schedule calls deadline payload).1,
        (unreached_snoc_schedule calls deadline payload).2, ← owed, ← given]
      refine ⟨rfl, ?_, clock⟩
      simp [Agenda.apply]
    | advance now =>
      rw [times_snoc_advance, ← cons_append, pairwise_append] at ordered
      obtain ⟨before, -, last⟩ := ordered
      obtain ⟨owed, given, clock⟩ := ih before
      have forward := clock now fun time among => last time among now mem_cons_self
      rw [serve_snoc, unreached_snoc_advance, reached_snoc_advance_eq, firstReached_eq, ← owed,
        ← given]
      simp only [Agenda.apply, Nat.max_eq_right forward, sum_append, sum_singleton,
        times_snoc_advance, true_and]
      exact fun later all => Nat.div_le_div_right (all now (by simp))

theorem flatten_of_forall₂ {answers : List (List T)} {multisets : List (Multiset T)}
    (same : List.Forall₂ (fun (answer : List T) given => (answer : Multiset T) = given) answers multisets) :
    (answers.flatten : Multiset T) = multisets.sum := by
  induction same with
  | nil => rfl
  | cons head tail ih => rw [flatten_cons, ← Multiset.coe_add, head, ih, sum_cons]

/-- Each payload is returned exactly once, by the first advance after its scheduling whose
time has reached the deadline's tick. -/
theorem timers_fire_once (resolution slots : ℕ+) (start now : ℕ) (calls : List (Call T))
    (ordered : (start :: times (calls ++ [.advance now])).Pairwise (· ≤ ·)) :
    let after := serve apply (new start resolution slots) calls
    ((after.2.advance now).1 : Multiset T) = firstReached resolution now calls ∧
      (after.1.flatten : Multiset T) = reached resolution calls := by
  obtain ⟨placed, none⟩ := placed_new (T := T) start resolution slots
  have begun : Agenda.Shows resolution (new start resolution slots)
      (⟨start / resolution, 0⟩ : Agenda T) :=
    ⟨placed, rfl, rfl, by rw [none]; rfl⟩
  obtain ⟨answers, shows⟩ :=
    serve_related (Q := fun (answer : List T) given => (answer : Multiset T) = given)
      Agenda.apply_simulates begun calls
  rw [times_snoc_advance, ← cons_append, pairwise_append] at ordered
  obtain ⟨before, -, last⟩ := ordered
  obtain ⟨owed, given, clock⟩ := agenda_after resolution before
  have forward := clock now fun time among => last time among now mem_cons_self
  constructor
  · refine (Agenda.apply_simulates _ _ (.advance now) shows).1.trans ?_
    rw [Agenda.apply, owed, Nat.max_eq_right forward, firstReached_eq]
  · rw [flatten_of_forall₂ answers, given]

/-- A timer a turn and a half away stays in its bucket when an earlier one is drained, and a
jump over the whole wheel hands out the rest. -/
theorem timers_fire_once_wrapped :
    let calls : List (Call ℕ) := [.schedule 10 1, .schedule 30 2, .advance 10, .schedule 5 3]
    let after := serve apply (new 0 10 2) calls
    after.1 = [[], [], [1], []] ∧ ((after.2.advance 1000).1 : Multiset ℕ) = {2, 3} := by
  refine ⟨by decide, ?_⟩
  rw [(timers_fire_once 10 2 0 1000 _ (by decide)).1]
  decide

end TimerWheel

end E6irc
