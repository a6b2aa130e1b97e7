import E6irc.Bouncer.Resume

/-!
# The bounds of a backlog

Two bounds evict from the front of a ring, its positions and its bytes, and what
storage restores fills only the room left.  The bytes counted are those of the lines
held, only a single line may be longer than the bytes allowed, and the positions go
down by one from the newest, far enough above zero for all that can be restored.
-/

namespace E6irc.Bouncer

open Base List Buffer

variable {Snapshot : Type}

namespace Buffer

/-- The lines held. -/
def texts (b : Buffer Snapshot) : List Bytes :=
  b.entries.filterMap RingEntry.text

/-- `restore` with its subtractions checked. -/
def restoreChecked : List StoredBacklogLine → Buffer Snapshot → Option (Buffer Snapshot)
  | [], b => some b
  | stored :: older, b =>
    if b.entries.head?.elim b.nextSeq RingEntry.seq = 0 then none
    else if b.byteCap < b.bytes + stored.restored.length then some b
    else restoreChecked older
      { b with
        entries := .line ⟨b.frontPosition, stored.restored⟩ :: b.entries
        bytes := b.bytes + stored.restored.length }

/-- `preloadFront` with its subtractions checked. -/
def preloadChecked (older : List StoredBacklogLine) (b : Buffer Snapshot) :
    Option (Buffer Snapshot) :=
  b.restoreChecked ((restorable older).reverse.take (b.cap - b.entries.length))

end Buffer

/-- What happens to a ring whose lines may expire. -/
inductive RetentionEvent (Snapshot : Type)
  | push (cutoff : Option ℕ) (line : Bytes)
  | pushSession (snapshot : Snapshot)
  | expire (cutoff : Option ℕ)
  | preloadFront (older : List StoredBacklogLine)
deriving DecidableEq, Repr

/-- A ring's life; a position below zero would end it. -/
def retainedRing (Snapshot : Type) (cap epoch : ℕ) :
    System (Buffer Snapshot) (RetentionEvent Snapshot) where
  init := .new cap epoch
  step b
    | .push cutoff line => some (b.push cutoff line)
    | .pushSession snapshot => some (b.pushSession snapshot)
    | .expire cutoff => some (b.evictExpired cutoff)
    | .preloadFront older => b.preloadChecked older

namespace Buffer

/-! ## What is evicted -/

/-- The bytes counted are those of the lines held. -/
def Counted (b : Buffer Snapshot) : Prop :=
  b.bytes = (b.texts.map List.length).sum

/-- Only a single line may be longer than the bytes allowed. -/
structure Weighed (b : Buffer Snapshot) : Prop where
  counted : b.Counted
  bounded : b.bytes ≤ b.byteCap ∨ b.texts.length = 1

variable {b b' : Buffer Snapshot} {entry : RingEntry Snapshot}

theorem evictWhile_keeps {P : Buffer Snapshot → Prop} (keep : ∀ b, P b → P b.evictOldest)
    (go : Buffer Snapshot → Bool) (fuel : ℕ) (held : P b) : P (b.evictWhile go fuel) := by
  induction fuel generalizing b with
  | zero => exact held
  | succ fuel ih =>
    unfold evictWhile
    split
    · exact ih (keep b held)
    · exact held

theorem length_evictOldest (b : Buffer Snapshot) :
    b.evictOldest.entries.length = b.entries.length - 1 := by
  unfold evictOldest
  split
  · rename_i empty
    rw [empty]
    rfl
  · rename_i entries
    rw [entries]
    rfl
  · rename_i entries
    rw [entries]
    rfl

/-- Evicting ends where nothing more is to go. -/
theorem evictWhile_done (go : Buffer Snapshot → Bool)
    (some_left : ∀ b : Buffer Snapshot, go b = true → b.entries ≠ []) {fuel : ℕ}
    (enough : b.entries.length ≤ fuel) : go (b.evictWhile go fuel) = false := by
  induction fuel generalizing b with
  | zero =>
    rw [Bool.eq_false_iff]
    intro goes
    exact some_left b goes (eq_nil_of_length_eq_zero (Nat.le_zero.mp enough))
  | succ fuel ih =>
    unfold evictWhile
    split
    · refine ih ?_
      rw [length_evictOldest]
      omega
    · rename_i stays
      exact Bool.eq_false_iff.mpr stays

theorem texts_of_line {oldest : BufferedLine} {rest : List (RingEntry Snapshot)}
    (entries : b.entries = .line oldest :: rest) :
    b.texts = oldest.line :: rest.filterMap RingEntry.text := by
  rw [texts, entries]
  rfl

theorem texts_of_session {seq : ℕ} {snapshot : Snapshot} {rest : List (RingEntry Snapshot)}
    (entries : b.entries = .session seq snapshot :: rest) :
    b.texts = rest.filterMap RingEntry.text := by
  rw [texts, entries]
  rfl

theorem Counted.evictOldest (counted : b.Counted) : b.evictOldest.Counted := by
  unfold Counted at counted
  unfold Buffer.evictOldest
  split
  · exact counted
  · rename_i oldest rest entries
    rw [texts_of_line entries, map_cons, sum_cons] at counted
    exact Nat.sub_eq_of_eq_add' counted
  · rename_i seq snapshot rest entries
    rw [texts_of_session entries] at counted
    exact counted

theorem Weighed.evictOldest (weighed : b.Weighed) : b.evictOldest.Weighed := by
  refine ⟨weighed.counted.evictOldest, ?_⟩
  have counted := weighed.counted.evictOldest
  have bounded := weighed.bounded
  unfold Buffer.evictOldest at counted ⊢
  split
  · exact bounded
  · rename_i oldest rest entries
    simp only [entries] at counted
    rw [texts_of_line entries, length_cons] at bounded
    refine .inl ?_
    rcases bounded with within | single
    · exact (Nat.sub_le _ _).trans within
    -- the line evicted was the only one
    have nothing : rest.filterMap RingEntry.text = [] :=
      eq_nil_of_length_eq_zero (Nat.succ.inj single)
    have bytes : b.bytes - oldest.line.length = 0 := by
      refine Eq.trans counted ?_
      rw [texts, nothing]
      rfl
    exact bytes.trans_le (Nat.zero_le _)
  · rename_i seq snapshot rest entries
    rw [texts_of_session entries] at bounded
    exact bounded

theorem Weighed.evictWhile (weighed : b.Weighed) (go : Buffer Snapshot → Bool) (fuel : ℕ) :
    (b.evictWhile go fuel).Weighed :=
  evictWhile_keeps (fun _ held => held.evictOldest) go fuel weighed

theorem length_makeRoom (b : Buffer Snapshot) : b.makeRoom.entries.length < max b.cap 1 := by
  have room : decide (max b.makeRoom.cap 1 ≤ b.makeRoom.entries.length) = false := by
    refine evictWhile_done (fun b => max b.cap 1 ≤ b.entries.length) ?_ le_rfl
    intro b full empty
    rw [decide_eq_true_eq, empty, length_nil] at full
    omega
  rw [decide_eq_false_iff_not, show b.makeRoom.cap = b.cap from (sheds_evictWhile _ _ b).cap] at room
  omega

/-- What is still too long is the newest entry alone. -/
theorem shedBytes_bounded (b : Buffer Snapshot) :
    b.shedBytes.bytes ≤ b.shedBytes.byteCap ∨ b.shedBytes.entries.length ≤ 1 := by
  have done : (decide (b.shedBytes.byteCap < b.shedBytes.bytes) &&
      decide (1 < b.shedBytes.entries.length)) = false := by
    refine evictWhile_done (fun b => b.byteCap < b.bytes && 1 < b.entries.length) ?_ le_rfl
    intro b goes empty
    simp [empty] at goes
  rw [Bool.and_eq_false_iff, decide_eq_false_iff_not, decide_eq_false_iff_not] at done
  omega

/-! ## What is added -/

theorem texts_snoc {front : List (RingEntry Snapshot)} (entries : b.entries = front ++ [entry]) :
    b.texts = front.filterMap RingEntry.text ++ entry.text.toList := by
  rw [texts, entries, filterMap_append]
  cases entry <;> rfl

theorem Weighed.push (weighed : b.Weighed) (cutoff : Option ℕ) (line : Bytes) :
    (b.push cutoff line).Weighed := by
  constructor
  · have room : (b.evictExpired cutoff).makeRoom.Weighed := (weighed.evictWhile _ _).evictWhile _ _
    unfold Buffer.push
    generalize (b.evictExpired cutoff).makeRoom = mid at room
    refine evictWhile_keeps (fun _ held => held.evictOldest) _ _ ?_
    unfold Counted
    rw [texts_snoc rfl, map_append, sum_append, ← texts, ← room.counted]
    rfl
  · obtain ⟨kept, -, entries⟩ := (enters_push cutoff line b).entries
    refine (shedBytes_bounded _).imp_right fun single => ?_
    replace single : (b.push cutoff line).entries.length ≤ 1 := single
    rw [entries, length_append, length_singleton] at single
    rw [texts_snoc entries, eq_nil_of_length_eq_zero (by omega : kept.length = 0)]
    rfl

theorem Weighed.pushSession (weighed : b.Weighed) (snapshot : Snapshot) :
    (b.pushSession snapshot).Weighed := by
  have room : b.makeRoom.Weighed := weighed.evictWhile _ _
  have texts : (b.pushSession snapshot).texts = b.makeRoom.texts := by
    rw [texts_snoc rfl]
    exact append_nil _
  constructor
  · rw [Counted, texts]
    exact room.counted
  · rw [texts]
    exact room.bounded

theorem Weighed.restore (weighed : b.Weighed) (list : List StoredBacklogLine) :
    (b.restore list).Weighed := by
  induction list generalizing b with
  | nil => exact weighed
  | cons stored older ih =>
    unfold restore
    split
    · exact weighed
    rename_i fits
    refine ih ⟨?_, .inl (Nat.le_of_not_lt fits)⟩
    rw [Counted, texts_of_line rfl, map_cons, sum_cons, ← texts, ← weighed.counted]
    exact Nat.add_comm _ _

theorem length_push (cutoff : Option ℕ) (line : Bytes) (b : Buffer Snapshot) :
    (b.push cutoff line).entries.length ≤ max b.cap 1 := by
  have room := length_makeRoom (b.evictExpired cutoff)
  rw [show (b.evictExpired cutoff).cap = b.cap from (sheds_evictWhile _ _ b).cap] at room
  unfold push
  generalize (b.evictExpired cutoff).makeRoom = mid at room
  refine (sheds_evictWhile _ _ _).entries.length_le.trans ?_
  rw [length_append, length_singleton]
  omega

theorem length_pushSession (snapshot : Snapshot) (b : Buffer Snapshot) :
    (b.pushSession snapshot).entries.length ≤ max b.cap 1 := by
  have room := length_makeRoom b
  unfold pushSession
  rw [length_append, length_singleton]
  omega

theorem length_restore (list : List StoredBacklogLine) (b : Buffer Snapshot) :
    (b.restore list).entries.length ≤ b.entries.length + list.length := by
  induction list generalizing b with
  | nil => exact le_rfl
  | cons stored older ih =>
    unfold restore
    split
    · exact Nat.le_add_right _ _
    · refine (ih _).trans ?_
      simp only [length_cons]
      omega

theorem length_preloadFront (older : List StoredBacklogLine)
    (within : b.entries.length ≤ max b.cap 1) :
    (b.preloadFront older).entries.length ≤ max b.cap 1 := by
  have restored := length_restore ((restorable older).reverse.take (b.cap - b.entries.length)) b
  rw [length_take] at restored
  unfold preloadFront
  omega

/-! ## Positions -/

theorem Numbered.isChain {next : ℕ} {entries : List (RingEntry Snapshot)}
    (numbered : Numbered next entries) :
    entries.IsChain fun older newer => newer.seq = older.seq + 1 := by
  induction entries with
  | nil => exact .nil
  | cons first rest ih =>
    cases rest with
    | nil => exact .singleton _
    | cons second rest =>
      have here := numbered.1
      have below := numbered.2.1
      rw [length_cons] at here
      exact .cons_cons (by omega) (ih numbered.2)

theorem Numbered.seq_of_getLast? {next : ℕ} {entries : List (RingEntry Snapshot)}
    (numbered : Numbered next entries) (newest : entries.getLast? = some entry) :
    entry.seq + 1 = next := by
  obtain ⟨front, rfl⟩ := List.getLast?_eq_some_iff.mp newest
  exact numbered.of_append.1

/-- The position above the front, from which the restored ones go down. -/
theorem Numbered.front_eq (numbered : Numbered b.nextSeq b.entries) :
    b.entries.head?.elim b.nextSeq RingEntry.seq + b.entries.length = b.nextSeq := by
  cases entries : b.entries with
  | nil => rfl
  | cons first rest =>
    rw [entries] at numbered
    exact numbered.1

theorem restoreChecked_eq (list : List StoredBacklogLine) (numbered : Numbered b.nextSeq b.entries)
    (room : b.entries.length + list.length < b.nextSeq) :
    b.restoreChecked list = some (b.restore list) := by
  induction list generalizing b with
  | nil => rfl
  | cons stored older ih =>
    rw [length_cons] at room
    have front := numbered.front_eq
    unfold restoreChecked restore
    rw [if_neg (by omega)]
    split
    · rfl
    refine ih ⟨?_, numbered⟩ ?_
    · show b.frontPosition + (b.entries.length + 1) = b.nextSeq
      unfold frontPosition
      omega
    · show b.entries.length + 1 + older.length < b.nextSeq
      omega

theorem Sound.preloadChecked_eq {cap epoch : ℕ} (sound : b.Sound cap epoch)
    (older : List StoredBacklogLine) : b.preloadChecked older = some (b.preloadFront older) := by
  refine restoreChecked_eq _ sound.numbered ?_
  have above := sound.above
  have within := sound.within
  rw [← sound.cap] at above
  rw [length_take]
  omega

theorem Sound.sheds {cap epoch : ℕ} (sound : b.Sound cap epoch) (sheds : b.Sheds b') :
    b'.Sound cap epoch := by
  obtain ⟨front, whole⟩ := sheds.entries
  have within := sound.within
  have numbered := sound.numbered
  rw [← whole] at numbered within
  rw [length_append] at within
  refine ⟨?_, ?_, ?_, sheds.cap.trans sound.cap, sheds.epoch.trans sound.epoch⟩
  · rw [sheds.nextSeq]
    exact numbered.of_append
  · rw [sheds.nextSeq]
    omega
  · rw [sheds.nextSeq]
    exact sound.above

/-! ## A ring's whole life -/

/-- The bounds that hold between any two events. -/
structure Kept (cap epoch : ℕ) (b : Buffer Snapshot) : Prop where
  sound : b.Sound cap epoch
  weighed : b.Weighed
  room : b.entries.length ≤ max b.cap 1

variable {cap epoch : ℕ} {events : List (RetentionEvent Snapshot)}

theorem Kept.step {event : RetentionEvent Snapshot} (kept : b.Kept cap epoch)
    (step : (retainedRing Snapshot cap epoch).step b event = some b') : b'.Kept cap epoch := by
  obtain ⟨sound, weighed, room⟩ := kept
  cases event with
  | push cutoff line =>
    cases step
    have enters := enters_push cutoff line b
    exact ⟨sound.enters enters, weighed.push cutoff line, enters.cap ▸ length_push cutoff line b⟩
  | pushSession snapshot =>
    cases step
    have enters := enters_pushSession snapshot b
    exact ⟨sound.enters enters, weighed.pushSession snapshot,
      enters.cap ▸ length_pushSession snapshot b⟩
  | expire cutoff =>
    cases step
    have sheds : b.Sheds (b.evictExpired cutoff) := sheds_evictWhile _ _ b
    exact ⟨sound.sheds sheds, weighed.evictWhile _ _,
      sheds.cap ▸ sheds.entries.length_le.trans room⟩
  | preloadFront older =>
    cases (sound.preloadChecked_eq older).symm.trans step
    have restores := sound.restores_preloadFront older
    exact ⟨sound.restores restores, weighed.restore _,
      restores.cap ▸ length_preloadFront older room⟩

end Buffer

/-- In every state of a ring's life: the bytes counted are those held, and within the
bytes allowed unless they are one line; the positions allowed are kept to, have no gap
and end below the next one; the newest line pushed is held; and no position computed
from them goes below zero. -/
theorem a_backlog_keeps_its_bounds (cap epoch : ℕ) (events : List (RetentionEvent Snapshot))
    (b : Buffer Snapshot) (run : (retainedRing Snapshot cap epoch).Run System.anyStep events b) :
    b.cap = cap ∧
      b.bytes = (b.texts.map List.length).sum ∧
      (b.bytes ≤ b.byteCap ∨ b.texts.length = 1) ∧
      b.entries.length ≤ max cap 1 ∧
      b.entries.IsChain (fun older newer => newer.seq = older.seq + 1) ∧
      (∀ newest ∈ b.entries.getLast?, newest.seq = b.nextSeq - 1) ∧
      (∀ before cutoff line, events = before ++ [.push cutoff line] →
        b.entries.getLast? = some (.line ⟨b.nextSeq - 1, line⟩)) ∧
      1 ≤ b.nextSeq ∧ ∀ older, b.preloadChecked older = some (b.preloadFront older) := by
  have kept : b.Kept cap epoch := run.invariant (P := fun _ b => b.Kept cap epoch)
    ⟨sound_new, ⟨rfl, .inl (Nat.zero_le _)⟩, Nat.zero_le _⟩
    fun _ _ _ _ kept _ step => kept.step step
  have sound := kept.sound
  refine ⟨sound.cap, kept.weighed.counted, kept.weighed.bounded, sound.cap ▸ kept.room,
    sound.numbered.isChain, ?_, ?_, Nat.one_le_of_lt sound.within, sound.preloadChecked_eq⟩
  · intro newest last
    have next := sound.numbered.seq_of_getLast? last
    omega
  · rintro before cutoff line rfl
    obtain ⟨mid, -, -, step⟩ := run.snoc_inv
    cases step
    have enters := enters_push cutoff line mid
    obtain ⟨kept, -, entries⟩ := enters.entries
    rw [entries, enters.nextSeq, List.getLast?_concat, Nat.add_sub_cancel]

/-- A ring of two positions: an over-long line, a session, expiry, and storage. -/
def mixedLife : List (RetentionEvent Unit) :=
  [.push none (List.replicate 1025 (byte 'a')), .pushSession (), .push none (ascii "PING"),
    .expire (some 1), .preloadFront [⟨ascii "PONG", ascii "2020-01-01T00:00:00.000Z"⟩],
    .push none (ascii "PONG a")]

theorem a_backlog_keeps_its_bounds_of_mixedLife :
    ∃ b : Buffer Unit, (retainedRing Unit 2 0).exec mixedLife = some b ∧
      b.entries.getLast? = some (.line ⟨b.nextSeq - 1, ascii "PONG a"⟩) ∧ b.entries.length ≤ 2 := by
  have replay : ((retainedRing Unit 2 0).exec mixedLife).isSome = true := by decide +kernel
  obtain ⟨b, replay⟩ := Option.isSome_iff_exists.mp replay
  have bounds := a_backlog_keeps_its_bounds 2 0 mixedLife b (System.run_of_exec replay)
  obtain ⟨-, -, -, room, -, -, newest, -⟩ := bounds
  exact ⟨b, replay, newest mixedLife.dropLast none _ rfl, room⟩

end E6irc.Bouncer
