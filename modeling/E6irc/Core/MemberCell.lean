import Mathlib

/-!
# One session and one channel

What a session's shard and a channel's shard know of each other, apart from all
other sessions and channels: the session's side (`listed`, the JOINs in flight
and those of them a `JOIN 0` has to part), the channel's side (`member`), and the
two ordered queues between them.  An era counts the `JOIN 0`s sent before a JOIN,
so a JOIN of an era below the session's `zeros` is one that a `JOIN 0` followed.

`Cell.Live` and `Cell.Gone` say how the two sides can differ while something is
on its way between them, for a session that lives and for one that is gone.
-/

namespace E6irc.Membership

open List

/-- What the session's shard sends the channel's. -/
inductive Up
  | join (era : ℕ)
  /-- A PART, and how many `JOIN 0`s there had been if one of them caused it. -/
  | part (owed : Option ℕ)
  | quit
  | vanished
deriving DecidableEq, Repr

/-- What the channel's shard sends the session's. -/
inductive Down
  | joined (era : ℕ)
  /-- The JOIN changed nothing: the session was a member already, or was refused. -/
  | unchanged (era : ℕ)
  | parted
  | removed
deriving DecidableEq, Repr

/-- The era of the JOIN asked. -/
@[simp] def Up.asked : Up → Option ℕ
  | join era => some era
  | part _ => none
  | quit => none
  | vanished => none

/-- The era of the JOIN answered. -/
@[simp] def Down.answered : Down → Option ℕ
  | joined era => some era
  | unchanged era => some era
  | parted => none
  | removed => none

/-- Whether the session has the channel once it is told. -/
@[simp] def Down.lists (before : Bool) : Down → Bool
  | joined _ => true
  | unchanged _ => before
  | parted => false
  | removed => false

structure Cell where
  alive : Bool
  listed : Bool
  zeros : ℕ
  pending : ℕ
  owed : ℕ
  /-- The era of the last JOIN that found or made the session a member. -/
  member : Option ℕ
  up : List Up
  down : List Down
deriving DecidableEq, Repr

namespace Cell

/-- No session yet. -/
def unborn : Cell := ⟨false, false, 0, 0, 0, none, [], []⟩

/-- A new session. -/
def born : Cell := { unborn with alive := true }

/-- The eras of the JOINs in flight, oldest first. -/
def inFlight (x : Cell) : List ℕ :=
  x.down.filterMap Down.answered ++ x.up.filterMap Up.asked

/-- One step of either shard.  `ok` is what a state has to meet for a JOIN to be sent. -/
inductive Step (ok : Cell → Prop) : Cell → Cell → Prop
  | join (x : Cell) : x.alive = true → ok x →
    Step ok x { x with pending := x.pending + 1, up := x.up ++ [.join x.zeros] }
  | joinZero (x : Cell) : x.alive = true →
    Step ok x { x with
      zeros := x.zeros + 1
      owed := x.pending
      up := x.up ++ if x.listed then [.part (some (x.zeros + 1))] else [] }
  | part (x : Cell) : x.alive = true → Step ok x { x with up := x.up ++ [.part none] }
  | close (x : Cell) : x.alive = true →
    Step ok x { unborn with
      member := x.member
      up := x.up ++ if x.listed || decide (0 < x.pending) then [.quit] else []
      down := x.down }
  | letIn (x : Cell) (era : ℕ) : x.member = none →
    Step ok { x with up := .join era :: x.up }
      { x with member := some era, down := x.down ++ [.joined era] }
  | know (x : Cell) (era before : ℕ) : x.member = some before →
    Step ok { x with up := .join era :: x.up }
      { x with member := some era, down := x.down ++ [.unchanged era] }
  | refuse (x : Cell) (era : ℕ) : x.member = none →
    Step ok { x with up := .join era :: x.up } { x with down := x.down ++ [.unchanged era] }
  | remove (x : Cell) (owed : Option ℕ) :
    Step ok { x with up := .part owed :: x.up }
      { x with member := none, down := x.down ++ if x.member.isSome then [.parted] else [] }
  | leave (x : Cell) (last : Up) : last = .quit ∨ last = .vanished →
    Step ok { x with up := last :: x.up } { x with member := none }
  | kick (x : Cell) : x.member.isSome →
    Step ok x { x with member := none, down := x.down ++ [.removed] }
  | hearJoined (x : Cell) (era : ℕ) : x.alive = true →
    Step ok { x with down := .joined era :: x.down }
      { x with
        listed := true
        pending := x.pending - 1
        owed := x.owed - 1
        up := x.up ++ if 0 < x.owed then [.part (some x.zeros)] else [] }
  | hearUnchanged (x : Cell) (era : ℕ) : x.alive = true →
    Step ok { x with down := .unchanged era :: x.down }
      { x with pending := x.pending - 1, owed := x.owed - 1 }
  | hearNoMore (x : Cell) (news : Down) : news = .parted ∨ news = .removed →
    Step ok { x with down := news :: x.down } { x with listed := false }
  | vanish (x : Cell) (era : ℕ) : x.alive = false →
    Step ok { x with down := .joined era :: x.down } { x with up := x.up ++ [.vanished] }
  | ignore (x : Cell) (era : ℕ) : x.alive = false →
    Step ok { x with down := .unchanged era :: x.down } x

/-- What a new session can come to. -/
def Reach (ok : Cell → Prop) : Cell → Prop :=
  Relation.ReflTransGen (Step ok) born

attribute [local simp] unborn inFlight

/-- No step starts before there is a session. -/
theorem Step.not_unborn {ok : Cell → Prop} {x : Cell} (step : Step ok unborn x) : False := by
  generalize start : unborn = y at step
  cases step with
  | join _ alive | joinZero _ alive | part _ alive | close _ alive | kick _ alive =>
    subst start
    cases alive
  | _ => simp at start

/-! ## The JOINs in flight -/

/-- The two counts stand for the order of the JOINs in flight, of the eras given
oldest first: `pending` counts them all and `owed` those that a `JOIN 0` followed. -/
structure Counted (pending owed zeros : ℕ) (eras : List ℕ) : Prop where
  pending : pending = eras.length
  owed : owed = eras.countP (· < zeros)
  sorted : eras.Pairwise (· ≤ ·)
  bounded : ∀ era ∈ eras, era ≤ zeros

section Counted

variable {pending owed zeros era : ℕ} {eras : List ℕ}

theorem Counted.send (counted : Counted pending owed zeros eras) :
    Counted (pending + 1) owed zeros (eras ++ [zeros]) where
  pending := by simp [counted.pending]
  owed := by simp [counted.owed]
  sorted := pairwise_append.mpr
    ⟨counted.sorted, pairwise_singleton _ _, by simpa using counted.bounded⟩
  bounded := by simpa [or_imp, forall_and] using counted.bounded

/-- Whatever is in flight at a `JOIN 0` was sent before it. -/
theorem Counted.joinZero (counted : Counted pending owed zeros eras) :
    Counted pending pending (zeros + 1) eras where
  pending := counted.pending
  owed := by
    have all : ∀ era ∈ eras, decide (era < zeros + 1) = true := fun era among =>
      decide_eq_true (Nat.lt_succ_of_le (counted.bounded era among))
    rw [countP_eq_length.mpr all, counted.pending]
  sorted := counted.sorted
  bounded := fun era among => (counted.bounded era among).trans (Nat.le_succ zeros)

/-- An answer is owed a PART exactly when a `JOIN 0` followed its JOIN: if the
oldest was sent after the last one, so were all. -/
theorem Counted.owed_pos (counted : Counted pending owed zeros (era :: eras)) :
    0 < owed ↔ era < zeros := by
  rw [counted.owed, countP_pos_iff]
  constructor
  · intro ⟨other, among, below⟩
    have below := of_decide_eq_true below
    rcases mem_cons.mp among with rfl | later
    · exact below
    · exact ((pairwise_cons.mp counted.sorted).1 other later).trans_lt below
  · intro below
    exact ⟨era, mem_cons_self, decide_eq_true below⟩

theorem Counted.answer (counted : Counted pending owed zeros (era :: eras)) :
    Counted (pending - 1) (owed - 1) zeros eras where
  pending := by simp [counted.pending]
  owed := by
    have head := counted.owed_pos
    have split := counted.owed
    rw [countP_cons] at split
    by_cases below : era < zeros
    · simp only [below, decide_true, if_true] at split
      omega
    · simp only [below, decide_false, Bool.false_eq_true, if_false] at split
      omega
  sorted := (pairwise_cons.mp counted.sorted).2
  bounded := fun other among => counted.bounded other (mem_cons_of_mem _ among)

end Counted

/-! ## What the session is told -/

/-- A session that has the channel in the end has it now or is yet to hear that it joined. -/
theorem joined_of_lists {news : List Down} {before : Bool}
    (after : news.foldl Down.lists before = true) : before = true ∨ ∃ era, .joined era ∈ news := by
  induction news generalizing before with
  | nil => exact .inl after
  | cons first rest ih =>
    rcases ih after with now | ⟨era, later⟩
    · cases first with
      | joined era => exact .inr ⟨era, mem_cons_self⟩
      | unchanged _ => exact .inl now
      | parted => cases now
      | removed => cases now
    · exact .inr ⟨era, mem_cons_of_mem _ later⟩

/-! ## Live sessions -/

/-- The member's era lies between those of the JOINs answered and those asked. -/
structure Admitted (zeros : ℕ) (answers asks : List ℕ) (m : ℕ) : Prop where
  low : m ≤ zeros
  answered : ∀ era ∈ answers, era ≤ m
  asked : ∀ era ∈ asks, m ≤ era
  /-- The last JOIN answered is the one that found or made the member. -/
  last : answers ≠ [] → m ∈ answers

/-- An answer is heard: the one that made the member is still to come, or none is. -/
theorem Admitted.hear {zeros era m : ℕ} {answers asks : List ℕ}
    (admitted : Admitted zeros (era :: answers) asks m)
    (sorted : (era :: answers).Pairwise (· ≤ ·)) : Admitted zeros answers asks m where
  low := admitted.low
  answered := fun other among => admitted.answered other (mem_cons_of_mem _ among)
  asked := admitted.asked
  last := by
    intro more
    rcases mem_cons.mp (admitted.last nofun) with rfl | later
    · obtain ⟨next, rest, rfl⟩ := exists_cons_of_ne_nil more
      have above := (pairwise_cons.mp sorted).1 next mem_cons_self
      have below := admitted.answered next (by simp)
      exact above.antisymm below ▸ mem_cons_self
    · exact later

structure Live (x : Cell) : Prop where
  counted : Counted x.pending x.owed x.zeros x.inFlight
  /-- The channel's side is what the session's will be once it has heard all. -/
  told : x.down.foldl Down.lists x.listed = x.member.isSome
  staying : .quit ∉ x.up ∧ .vanished ∉ x.up
  admitted : ∀ m ∈ x.member,
    Admitted x.zeros (x.down.filterMap Down.answered) (x.up.filterMap Up.asked) m
  /-- A member admitted before a `JOIN 0` is on its way out. -/
  parting : ∀ m ∈ x.member, m < x.zeros → (∃ owed, .part owed ∈ x.up) ∨ ∃ era, .joined era ∈ x.down

structure Gone (x : Cell) : Prop where
  unlisted : x.listed = false
  /-- A member that is left is on its way out. -/
  leaving : x.member.isSome → .quit ∈ x.up ∨ .vanished ∈ x.up ∨ ∃ era, .joined era ∈ x.down

theorem born_live : born.Live where
  counted := ⟨rfl, rfl, .nil, by simp [born]⟩
  told := rfl
  staying := by simp [born]
  admitted := by simp [born]
  parting := by simp [born]

section

variable {x : Cell}

theorem Live.join (live : x.Live) :
    Live { x with pending := x.pending + 1, up := x.up ++ [.join x.zeros] } where
  counted := by simpa using live.counted.send
  told := live.told
  staying := by simpa using live.staying
  admitted := fun m held => {
    low := (live.admitted m held).low
    answered := (live.admitted m held).answered
    asked := by
      simpa [or_imp, forall_and, (live.admitted m held).low] using
        (live.admitted m held).asked
    last := (live.admitted m held).last }
  parting := by
    intro m held below
    rcases live.parting m held below with ⟨owed, among⟩ | joined
    · exact .inl ⟨owed, mem_append_left _ among⟩
    · exact .inr joined

/-- PARTs queued behind the rest change nothing but what parts the member. -/
theorem Live.parts (live : x.Live) (parts : List Up) (only : ∀ up ∈ parts, ∃ owed, up = .part owed) :
    Live { x with up := x.up ++ parts } := by
  have none_asked : parts.filterMap Up.asked = [] := by
    rw [filterMap_eq_nil_iff]
    intro up among
    obtain ⟨owed, rfl⟩ := only up among
    rfl
  have asked : (x.up ++ parts).filterMap Up.asked = x.up.filterMap Up.asked := by
    rw [filterMap_append, none_asked, append_nil]
  refine ⟨?_, live.told, ?_, fun m held => ?_, fun m held below => ?_⟩
  · simpa only [inFlight, asked] using live.counted
  · have none_leaves : ∀ up ∈ parts, up ≠ .quit ∧ up ≠ .vanished := by
      intro up among
      obtain ⟨owed, rfl⟩ := only up among
      exact ⟨nofun, nofun⟩
    simp only [mem_append, not_or]
    exact ⟨⟨live.staying.1, fun among => (none_leaves _ among).1 rfl⟩,
      live.staying.2, fun among => (none_leaves _ among).2 rfl⟩
  · have admitted := live.admitted m held
    rw [asked]
    exact admitted
  · rcases live.parting m held below with ⟨owed, among⟩ | joined
    · exact .inl ⟨owed, mem_append_left _ among⟩
    · exact .inr joined

theorem Live.joinZero (live : x.Live) :
    Live { x with
      zeros := x.zeros + 1
      owed := x.pending
      up := x.up ++ if x.listed then [.part (some (x.zeros + 1))] else [] } := by
  have same : (x.up ++ if x.listed then [Up.part (some (x.zeros + 1))] else []).filterMap Up.asked =
      x.up.filterMap Up.asked := by
    split <;> simp
  refine ⟨?_, live.told, ?_, fun m held => ?_, fun m held below => ?_⟩
  · simpa only [inFlight, same] using live.counted.joinZero
  · split <;> simpa using live.staying
  · have admitted := live.admitted m held
    exact ⟨admitted.low.trans (Nat.le_succ _), admitted.answered,
      fun era among => admitted.asked era (same ▸ among), admitted.last⟩
  · -- a member is listed, and parted now, or the session is yet to hear that it joined
    have member : x.member.isSome = true := Option.isSome_iff_exists.mpr ⟨m, held⟩
    rcases joined_of_lists (live.told.trans member) with listed | joined
    · exact .inl ⟨some (x.zeros + 1), by simp [listed]⟩
    · exact .inr joined

/-- The owner answers a JOIN: its era moves from one queue to the other. -/
theorem Live.answer {era : ℕ} {news : Down} (live : Live { x with up := .join era :: x.up })
    (answers : news.answered = some era) (member : Option ℕ)
    (told : (x.down ++ [news]).foldl Down.lists x.listed = member.isSome)
    (now : ∀ m ∈ member, m = era)
    (parting : ∀ m ∈ member, m < x.zeros →
      (∃ owed, .part owed ∈ x.up) ∨ ∃ era, .joined era ∈ x.down ++ [news]) :
    Live { x with member := member, down := x.down ++ [news] } := by
  have moved : (x.down ++ [news]).filterMap Down.answered =
      x.down.filterMap Down.answered ++ [era] := by
    rw [filterMap_append, filterMap_cons_some answers, filterMap_nil]
  have counted : Counted x.pending x.owed x.zeros
      ((x.down.filterMap Down.answered ++ [era]) ++ x.up.filterMap Up.asked) := by
    simpa using live.counted
  have sorted := pairwise_append.mp counted.sorted
  have front := pairwise_append.mp sorted.1
  refine ⟨?_, told, ?_, fun m held => ?_, parting⟩
  · rw [inFlight, moved]
    exact counted
  · exact ⟨fun among => live.staying.1 (mem_cons_of_mem _ among),
      fun among => live.staying.2 (mem_cons_of_mem _ among)⟩
  obtain rfl := now m held
  have last : m ∈ x.down.filterMap Down.answered ++ [m] := by simp
  refine ⟨counted.bounded m (mem_append_left _ last), fun other among => ?_,
    fun other among => sorted.2.2 m last other among, fun _ => moved ▸ last⟩
  rw [moved] at among
  rcases mem_append.mp among with before | here
  · exact front.2.2 other before m mem_cons_self
  · exact (mem_singleton.mp here).le

theorem Live.remove {owed : Option ℕ} (live : Live { x with up := .part owed :: x.up }) :
    Live { x with
      member := none
      down := x.down ++ if x.member.isSome then [.parted] else [] } := by
  have same : (x.down ++ if x.member.isSome then [Down.parted] else []).filterMap Down.answered =
      x.down.filterMap Down.answered := by
    split <;> simp
  refine ⟨?_, ?_, ?_, nofun, nofun⟩
  · rw [inFlight, same]
    exact live.counted
  · have told := live.told
    rcases member : x.member with _ | m
    · simpa [member] using told
    · simp
  · exact ⟨fun among => live.staying.1 (mem_cons_of_mem _ among),
      fun among => live.staying.2 (mem_cons_of_mem _ among)⟩

theorem Live.kick (live : x.Live) :
    Live { x with member := none, down := x.down ++ [.removed] } := by
  have same : (x.down ++ [Down.removed]).filterMap Down.answered =
      x.down.filterMap Down.answered := by
    simp
  refine ⟨?_, by simp, live.staying, nofun, nofun⟩
  rw [inFlight, same]
  exact live.counted

/-- The session hears an answer.  One that was owed no PART is of a JOIN sent after
the last `JOIN 0`, as the member's then is. -/
theorem Live.hearJoined {era : ℕ} (live : Live { x with down := .joined era :: x.down }) :
    Live { x with
      listed := true
      pending := x.pending - 1
      owed := x.owed - 1
      up := x.up ++ if 0 < x.owed then [.part (some x.zeros)] else [] } := by
  have counted : Counted x.pending x.owed x.zeros
      (era :: (x.down.filterMap Down.answered ++ x.up.filterMap Up.asked)) := by
    simpa using live.counted
  have same : (x.up ++ if 0 < x.owed then [Up.part (some x.zeros)] else []).filterMap Up.asked =
      x.up.filterMap Up.asked := by
    split <;> simp
  refine ⟨?_, live.told, ?_, fun m held => ?_, fun m held below => ?_⟩
  · rw [inFlight, same]
    exact counted.answer
  · split <;> simpa using live.staying
  · have admitted := live.admitted m held
    rw [same]
    exact admitted.hear (pairwise_append.mp live.counted.sorted).1
  · have admitted := live.admitted m held
    have first : era ≤ m := admitted.answered era (by simp)
    exact .inl ⟨some x.zeros, by simp [counted.owed_pos.mpr (first.trans_lt below)]⟩

theorem Live.hearUnchanged {era : ℕ} (live : Live { x with down := .unchanged era :: x.down }) :
    Live { x with pending := x.pending - 1, owed := x.owed - 1 } where
  counted := live.counted.answer
  told := live.told
  staying := live.staying
  admitted := fun m held =>
    (live.admitted m held).hear (pairwise_append.mp live.counted.sorted).1
  parting := by
    intro m held below
    rcases live.parting m held below with parted | ⟨other, joined⟩
    · exact .inl parted
    · exact .inr ⟨other, by simpa using joined⟩

theorem Live.hearNoMore {news : Down} (live : Live { x with down := news :: x.down })
    (noMore : news = .parted ∨ news = .removed) : Live { x with listed := false } := by
  have same : (news :: x.down).filterMap Down.answered = x.down.filterMap Down.answered := by
    rcases noMore with rfl | rfl <;> rfl
  refine ⟨?_, ?_, live.staying, fun m held => ?_, fun m held below => ?_⟩
  · have counted := live.counted
    rw [inFlight, same] at counted
    exact counted
  · rcases noMore with rfl | rfl <;> exact live.told
  · have admitted := live.admitted m held
    rw [same] at admitted
    exact admitted
  · rcases live.parting m held below with parted | ⟨other, joined⟩
    · exact .inl parted
    · refine .inr ⟨other, ?_⟩
      rcases noMore with rfl | rfl <;> simpa using joined

end

/-! ## Both kinds of sessions -/

def Inv (x : Cell) : Prop :=
  (x.alive = true → x.Live) ∧ (x.alive = false → x.Gone)

section

variable {x y : Cell} {ok : Cell → Prop}

theorem Live.close (live : x.Live) :
    Gone { unborn with
      member := x.member
      up := x.up ++ if x.listed || decide (0 < x.pending) then [.quit] else []
      down := x.down } where
  unlisted := rfl
  leaving := by
    intro member
    rcases joined_of_lists (live.told.trans member) with listed | joined
    · exact .inl (by simp [listed])
    · exact .inr (.inr joined)

/-- The step of a session that is gone, or of the channel's shard for one. -/
theorem Gone.step (gone : x.Gone) (dead : x.alive = false) (step : Step ok x y) : y.Gone := by
  cases step with
  | join _ alive | joinZero _ alive | part _ alive | close _ alive =>
    rw [dead] at alive
    cases alive
  | hearJoined x _ alive | hearUnchanged x _ alive =>
    have still : x.alive = false := dead
    rw [still] at alive
    cases alive
  | letIn x era => exact ⟨gone.unlisted, fun _ => .inr (.inr ⟨era, by simp⟩)⟩
  | know x era _ member =>
    refine ⟨gone.unlisted, fun _ => ?_⟩
    simpa using gone.leaving (by simp [member])
  | refuse x era none =>
    refine ⟨gone.unlisted, fun member => ?_⟩
    rw [none] at member
    cases member
  | remove x _ | leave x _ | kick _ => exact ⟨gone.unlisted, nofun⟩
  | hearNoMore x _ noMore =>
    refine ⟨rfl, fun member => ?_⟩
    rcases noMore with rfl | rfl <;> simpa using gone.leaving member
  | vanish x era => exact ⟨gone.unlisted, fun _ => .inr (.inl (by simp))⟩
  | ignore x era =>
    refine ⟨gone.unlisted, fun member => ?_⟩
    simpa using gone.leaving member

theorem Live.inv (live : x.Live) (alive : x.alive = true) : x.Inv :=
  ⟨fun _ => live, fun dead => absurd (alive.symm.trans dead) nofun⟩

theorem Live.step (live : x.Live) (alive : x.alive = true) (step : Step ok x y) : y.Inv := by
  cases step with
  | join => exact live.join.inv alive
  | joinZero => exact live.joinZero.inv alive
  | part => exact (live.parts _ (by simp)).inv alive
  | close => exact ⟨nofun, fun _ => live.close⟩
  | letIn x era none =>
    refine (live.answer rfl (some era) (by simp) (by simp) ?_).inv alive
    exact fun _ _ _ => .inr ⟨era, by simp⟩
  | know x era before member =>
    refine (live.answer rfl (some era) ?_ (by simp) fun m held below => ?_).inv alive
    · simpa [member] using live.told
    -- the member was on its way out before this JOIN came
    cases held
    have earlier : before ≤ era := (live.admitted before member).asked era (by simp)
    rcases live.parting before member (earlier.trans_lt below) with ⟨owed, parted⟩ | joined
    · exact .inl ⟨owed, by simpa using parted⟩
    · obtain ⟨other, joined⟩ := joined
      exact .inr ⟨other, mem_append_left _ joined⟩
  | refuse x era none =>
    refine (live.answer rfl x.member ?_ ?_ ?_).inv alive
    · simpa using live.told
    · simp [none]
    · simp [none]
  | remove x _ => exact live.remove.inv alive
  | leave x last leaves =>
    rcases leaves with rfl | rfl
    · exact absurd mem_cons_self live.staying.1
    · exact absurd mem_cons_self live.staying.2
  | kick _ => exact live.kick.inv alive
  | hearJoined x => exact live.hearJoined.inv alive
  | hearUnchanged x => exact live.hearUnchanged.inv alive
  | hearNoMore x _ noMore => exact (live.hearNoMore noMore).inv alive
  | vanish x _ dead | ignore _ _ dead => exact absurd (dead.symm.trans alive) nofun

/-- A session does not come back. -/
theorem Step.stays_dead (step : Step ok x y) (dead : x.alive = false) : y.alive = false := by
  cases step with
  | close => rfl
  | _ => exact dead

theorem Inv.step (inv : x.Inv) (step : Step ok x y) : y.Inv := by
  cases alive : x.alive with
  | true => exact (inv.1 alive).step alive step
  | false =>
    exact ⟨fun back => absurd ((step.stays_dead alive).symm.trans back) nofun,
      fun _ => (inv.2 alive).step alive step⟩

/-- Every state of a session and a channel meets the invariant. -/
theorem Reach.inv (reach : Reach ok x) : x.Inv := by
  induction reach with
  | refl => exact born_live.inv rfl
  | tail _ step ih => exact ih.step step

end

end Cell

end E6irc.Membership
