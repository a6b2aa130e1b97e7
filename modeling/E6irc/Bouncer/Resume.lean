import E6irc.Base.Run
import E6irc.Bouncer.Buffer

/-!
# Resuming behind a cursor

A ring hands out cursors: its position, and the positions of the lines it holds.
When it honours one later, what it replays should be what came after it.

Entries are numbered without a gap, so a cursor says how many entries are newer
than it (`Numbered`), and as long as entries only leave the front and come at the
back, the newest so many are the same ones (`Follows`).  Restored lines come in
front: where an entry has been evicted before, they take the positions of what was
evicted.
-/

namespace E6irc.Bouncer

open Base List Buffer

variable {Snapshot : Type}

/-- What happens to a ring. -/
inductive Event (Snapshot : Type)
  | push (line : Bytes)
  | pushSession (snapshot : Snapshot)
  | preloadFront (older : List StoredBacklogLine)
deriving DecidableEq, Repr

def Event.isPreload : Event Snapshot → Bool
  | preloadFront _ => true
  | _ => false

/-- The line an event pushes. -/
def Event.line? : Event Snapshot → Option Bytes
  | push line => some line
  | _ => none

/-- A ring's life, with no retention cutoff. -/
def ring (Snapshot : Type) (cap epoch : ℕ) : System (Buffer Snapshot) (Event Snapshot) where
  init := .new cap epoch
  step b
    | .push line => some (b.push none line)
    | .pushSession snapshot => some (b.pushSession snapshot)
    | .preloadFront older => some (b.preloadFront older)

namespace Buffer

/-- The ring hands out `cursor`, and holds the lines `behind` it, which came after. -/
inductive HandsOut (b : Buffer Snapshot) : ReplayCursor → List Bytes → Prop
  | position : HandsOut b ⟨b.epoch, b.position⟩ []
  | line {front back : List (RingEntry Snapshot)} {line : BufferedLine} :
    b.entries = front ++ .line line :: back →
    HandsOut b ⟨b.epoch, line.seq⟩ (back.filterMap RingEntry.text)

/-- No entry has left the ring, and none has been restored. -/
def Unshed (b : Buffer Snapshot) : Prop :=
  b.nextSeq = b.cap + 1 + b.entries.length

/-- The newest line to restore finds no room. -/
def RestoresNone (older : List StoredBacklogLine) (b : Buffer Snapshot) : Prop :=
  ∀ stored ∈ (restorable older).getLast?,
    b.cap ≤ b.entries.length ∨ b.byteCap < b.bytes + stored.restored.length

instance (b : Buffer Snapshot) : Decidable b.Unshed :=
  inferInstanceAs (Decidable (_ = _))

instance (older : List StoredBacklogLine) (b : Buffer Snapshot) :
    Decidable (b.RestoresNone older) :=
  inferInstanceAs (Decidable (∀ stored ∈ (restorable older).getLast?, _))

/-- Storage is read back only before anything has left the ring. -/
def ReadsBackInTime (b : Buffer Snapshot) : Event Snapshot → Prop
  | .preloadFront older => b.Unshed ∨ b.RestoresNone older
  | _ => True

instance (b : Buffer Snapshot) : (event : Event Snapshot) → Decidable (b.ReadsBackInTime event)
  | .preloadFront _ => inferInstanceAs (Decidable (_ ∨ _))
  | .push _ | .pushSession _ => inferInstanceAs (Decidable True)

/-! ## Numbered entries -/

/-- The entries take the positions up to `next`, without a gap. -/
def Numbered (next : ℕ) : List (RingEntry Snapshot) → Prop
  | [] => True
  | entry :: rest => entry.seq + (rest.length + 1) = next ∧ Numbered next rest

variable {next : ℕ} {entries : List (RingEntry Snapshot)} {entry : RingEntry Snapshot}
  {b : Buffer Snapshot}

theorem Numbered.snoc (numbered : Numbered next entries) (last : entry.seq = next) :
    Numbered (next + 1) (entries ++ [entry]) := by
  induction entries with
  | nil => exact ⟨by simp [last], trivial⟩
  | cons first rest ih =>
    have here := numbered.1
    refine ⟨?_, ih numbered.2⟩
    rw [append_eq, length_append, length_singleton]
    omega

variable {front : List (RingEntry Snapshot)}

theorem Numbered.of_append
    (numbered : Numbered next (front ++ entries)) : Numbered next entries := by
  induction front with
  | nil => exact numbered
  | cons first front ih => exact ih numbered.2

theorem rtake_append_of_le {α : Type} {front back : List α} {n : ℕ} (within : n ≤ back.length) :
    (front ++ back).rtake n = back.rtake n := by
  have skipped : (front ++ back).length - n = front.length + (back.length - n) := by
    rw [length_append]
    omega
  rw [rtake, rtake, skipped, drop_length_add_append]

/-- The entries after a position are the newest ones, as many as it is behind. -/
theorem Numbered.filter_eq (numbered : Numbered next entries) (seq : ℕ) :
    entries.filter (seq + 1 ≤ ·.seq) = entries.rtake (next - 1 - seq) := by
  induction entries with
  | nil => simp
  | cons first rest ih =>
    have here := numbered.1
    rw [filter_cons]
    split
    · rename_i later
      have later : seq + 1 ≤ first.seq := by simpa using later
      have all : (first :: rest).length - (next - 1 - seq) = 0 := by
        simp only [length_cons]
        omega
      have rest_all : rest.length - (next - 1 - seq) = 0 := by omega
      rw [ih numbered.2, rtake, rtake, all, rest_all, drop_zero, drop_zero]
    · rename_i earlier
      have earlier : ¬ seq + 1 ≤ first.seq := by simpa using earlier
      have skipped : (first :: rest).length - (next - 1 - seq) =
          rest.length - (next - 1 - seq) + 1 := by
        simp only [length_cons]
        omega
      rw [ih numbered.2, rtake, rtake, skipped, drop_succ_cons]

/-! ## What the operations do to the entries -/

/-- Entries leave the front. -/
structure Sheds (b b' : Buffer Snapshot) : Prop where
  entries : b'.entries <:+ b.entries
  cap : b'.cap = b.cap
  epoch : b'.epoch = b.epoch
  nextSeq : b'.nextSeq = b.nextSeq

theorem Sheds.refl (b : Buffer Snapshot) : b.Sheds b := ⟨suffix_refl _, rfl, rfl, rfl⟩

theorem Sheds.trans {b₁ b₂ b₃ : Buffer Snapshot} (first : b₁.Sheds b₂) (second : b₂.Sheds b₃) :
    b₁.Sheds b₃ where
  entries := second.entries.trans first.entries
  cap := second.cap.trans first.cap
  epoch := second.epoch.trans first.epoch
  nextSeq := second.nextSeq.trans first.nextSeq

theorem sheds_evictOldest (b : Buffer Snapshot) : b.Sheds b.evictOldest := by
  unfold evictOldest
  split
  · exact .refl b
  · rename_i rest entries
    exact ⟨entries ▸ suffix_cons _ _, rfl, rfl, rfl⟩
  · rename_i rest entries
    exact ⟨entries ▸ suffix_cons _ _, rfl, rfl, rfl⟩

theorem sheds_evictWhile (go : Buffer Snapshot → Bool) (fuel : ℕ) (b : Buffer Snapshot) :
    b.Sheds (b.evictWhile go fuel) := by
  induction fuel generalizing b with
  | zero => exact .refl b
  | succ fuel ih =>
    unfold evictWhile
    split
    · exact (sheds_evictOldest b).trans (ih _)
    · exact .refl b

/-- The newest entry stays where only an entry before it may leave. -/
theorem exists_evictWhile_snoc {go : Buffer Snapshot → Bool}
    (more : ∀ b : Buffer Snapshot, go b = true → 1 < b.entries.length) (fuel : ℕ)
    (entries : b.entries = front ++ [entry]) :
    ∃ kept, kept <:+ front ∧ (b.evictWhile go fuel).entries = kept ++ [entry] := by
  induction fuel generalizing b front with
  | zero => exact ⟨front, suffix_refl _, entries⟩
  | succ fuel ih =>
    unfold evictWhile
    split
    · rename_i goes
      have long := more b goes
      cases front with
      | nil =>
        rw [entries] at long
        exact absurd long (by simp)
      | cons first front =>
        have rest : b.evictOldest.entries = front ++ [entry] := by
          unfold evictOldest
          rw [entries]
          cases first <;> rfl
        obtain ⟨kept, suffix, split⟩ := ih rest
        exact ⟨kept, suffix.trans (suffix_cons _ _), split⟩
    · exact ⟨front, suffix_refl _, entries⟩

/-- An entry comes at the back, and others may leave the front. -/
structure Enters (b : Buffer Snapshot) (entry : RingEntry Snapshot) (b' : Buffer Snapshot) : Prop where
  entries : ∃ kept, kept <:+ b.entries ∧ b'.entries = kept ++ [entry]
  seq : entry.seq = b.nextSeq
  cap : b'.cap = b.cap
  epoch : b'.epoch = b.epoch
  nextSeq : b'.nextSeq = b.nextSeq + 1

theorem enters_push (cutoff : Option ℕ) (line : Bytes) (b : Buffer Snapshot) :
    b.Enters (.line ⟨b.nextSeq, line⟩) (b.push cutoff line) := by
  have room : b.Sheds (b.evictExpired cutoff).makeRoom :=
    (sheds_evictWhile _ _ b).trans (sheds_evictWhile _ _ _)
  unfold push
  generalize (b.evictExpired cutoff).makeRoom = mid at room
  rw [← room.nextSeq]
  let added : Buffer Snapshot :=
    { mid with
      entries := mid.entries ++ [.line ⟨mid.nextSeq, line⟩]
      bytes := mid.bytes + line.length
      nextSeq := mid.nextSeq + 1 }
  have shed : added.Sheds added.shedBytes := sheds_evictWhile _ _ added
  obtain ⟨kept, suffix, split⟩ : ∃ kept, kept <:+ mid.entries ∧
      added.shedBytes.entries = kept ++ [.line ⟨mid.nextSeq, line⟩] :=
    exists_evictWhile_snoc (by simp) _ rfl
  exact
    { entries := ⟨kept, suffix.trans room.entries, split⟩
      seq := room.nextSeq
      cap := shed.cap.trans room.cap
      epoch := shed.epoch.trans room.epoch
      nextSeq := shed.nextSeq.trans (congrArg (· + 1) room.nextSeq) }

theorem enters_pushSession (snapshot : Snapshot) (b : Buffer Snapshot) :
    b.Enters (.session b.nextSeq snapshot) (b.pushSession snapshot) := by
  have room : b.Sheds b.makeRoom := sheds_evictWhile _ _ b
  unfold pushSession
  rw [← room.nextSeq]
  exact
    { entries := ⟨_, room.entries, rfl⟩
      seq := room.nextSeq
      cap := room.cap
      epoch := room.epoch
      nextSeq := congrArg (· + 1) room.nextSeq }

/-- Entries come in front, below the oldest one. -/
structure Restores (b b' : Buffer Snapshot) : Prop where
  entries : b.entries <:+ b'.entries
  numbered : Numbered b.nextSeq b.entries → Numbered b.nextSeq b'.entries
  within : b'.entries.length < b.nextSeq
  cap : b'.cap = b.cap
  epoch : b'.epoch = b.epoch
  nextSeq : b'.nextSeq = b.nextSeq

theorem restores_restore (list : List StoredBacklogLine)
    (room : b.entries.length + list.length < b.nextSeq) : b.Restores (b.restore list) := by
  induction list generalizing b with
  | nil => exact ⟨suffix_refl _, id, room, rfl, rfl, rfl⟩
  | cons stored older ih =>
    rw [length_cons] at room
    unfold restore
    split
    · exact ⟨suffix_refl _, id, by omega, rfl, rfl, rfl⟩
    let added : Buffer Snapshot :=
      { b with
        entries := .line ⟨b.frontPosition, stored.restored⟩ :: b.entries
        bytes := b.bytes + stored.restored.length }
    have later : added.Restores (added.restore older) := ih (by
      simp only [added, length_cons]
      omega)
    refine ⟨(suffix_cons _ _).trans later.entries, fun numbered => later.numbered ⟨?_, ?_⟩,
      later.within, later.cap, later.epoch, later.nextSeq⟩
    · -- the position below the oldest is the next one down
      show b.frontPosition + (b.entries.length + 1) = b.nextSeq
      unfold frontPosition
      cases entries : b.entries with
      | nil =>
        simp only [entries, length_nil, head?_nil, Option.elim_none] at room ⊢
        omega
      | cons first rest =>
        rw [entries] at numbered room
        have here := numbered.1
        simp only [length_cons, head?_cons, Option.elim_some] at room ⊢
        omega
    · exact numbered

theorem restores_preloadFront (older : List StoredBacklogLine) (enough : b.cap < b.nextSeq)
    (within : b.entries.length < b.nextSeq) : b.Restores (b.preloadFront older) := by
  refine restores_restore _ ?_
  rw [length_take]
  omega

theorem preloadFront_of_restoresNone {older : List StoredBacklogLine}
    (none : b.RestoresNone older) : b.preloadFront older = b := by
  unfold preloadFront
  rcases eq_nil_or_concat (restorable older) with nothing | ⟨front, stored, split⟩
  · rw [nothing, reverse_nil, take_nil]
    rfl
  rw [split, concat_eq_append, reverse_append, reverse_singleton, singleton_append]
  rcases none stored (by simp [split]) with full | large
  · rw [Nat.sub_eq_zero_of_le full]
    rfl
  cases b.cap - b.entries.length with
  | zero => rfl
  | succ room =>
    rw [take_succ_cons, restore, if_pos large]

/-! ## Following a cursor -/

/-- The entries are numbered, up to a position above all that storage may take. -/
structure Sound (cap epoch : ℕ) (b : Buffer Snapshot) : Prop where
  numbered : Numbered b.nextSeq b.entries
  within : b.entries.length < b.nextSeq
  above : cap < b.nextSeq
  cap : b.cap = cap
  epoch : b.epoch = epoch

/-- Behind the position `seq` came `lines`: the newest entries show them, if there
are still as many as the position is behind. -/
structure Follows (seq : ℕ) (lines : List Bytes) (b : Buffer Snapshot) : Prop where
  reached : seq < b.nextSeq
  empty : b.entries = [] → lines = []
  newest : b.nextSeq - 1 - seq ≤ b.entries.length →
    (b.entries.rtake (b.nextSeq - 1 - seq)).filterMap RingEntry.text = lines

variable {cap epoch seq : ℕ} {lines : List Bytes} {b' : Buffer Snapshot}

theorem sound_new : (new cap epoch : Buffer Snapshot).Sound cap epoch :=
  ⟨trivial, Nat.succ_pos _, Nat.lt_succ_self _, rfl, rfl⟩

theorem Sound.enters (sound : b.Sound cap epoch) (enters : b.Enters entry b') :
    b'.Sound cap epoch := by
  obtain ⟨kept, ⟨dropped, whole⟩, entries⟩ := enters.entries
  have numbered := sound.numbered
  have within := sound.within
  have above := sound.above
  rw [← whole] at numbered within
  rw [length_append] at within
  refine ⟨?_, ?_, ?_, enters.cap.trans sound.cap, enters.epoch.trans sound.epoch⟩
  · rw [enters.nextSeq, entries]
    exact numbered.of_append.snoc enters.seq
  · rw [enters.nextSeq, entries, length_append, length_singleton]
    omega
  · rw [enters.nextSeq]
    omega

theorem Sound.restores (sound : b.Sound cap epoch) (restores : b.Restores b') :
    b'.Sound cap epoch where
  numbered := restores.nextSeq ▸ restores.numbered sound.numbered
  within := restores.nextSeq ▸ restores.within
  above := restores.nextSeq ▸ sound.above
  cap := restores.cap.trans sound.cap
  epoch := restores.epoch.trans sound.epoch

theorem Sound.restores_preloadFront (sound : b.Sound cap epoch) (older : List StoredBacklogLine) :
    b.Restores (b.preloadFront older) :=
  Buffer.restores_preloadFront older (sound.cap.symm ▸ sound.above) sound.within

theorem Follows.enters (follows : b.Follows seq lines) (enters : b.Enters entry b') :
    b'.Follows seq (lines ++ entry.text.toList) := by
  obtain ⟨kept, ⟨dropped, whole⟩, entries⟩ := enters.entries
  have reached := follows.reached
  refine ⟨?_, ?_, ?_⟩
  · rw [enters.nextSeq]
    omega
  · rw [entries]
    exact fun none => absurd none (append_ne_nil_of_right_ne_nil _ (cons_ne_nil _ _))
  intro held
  have behind : b'.nextSeq - 1 - seq = b.nextSeq - 1 - seq + 1 := by
    rw [enters.nextSeq]
    omega
  rw [behind, entries, length_append, length_singleton] at held
  have kept_held : b.nextSeq - 1 - seq ≤ kept.length := by omega
  have before := follows.newest (by
    rw [← whole, length_append]
    omega)
  rw [← whole, rtake_append_of_le kept_held] at before
  rw [behind, entries, rtake_concat_succ, filterMap_append, before]
  cases entry <;> rfl

/-- Restored entries change nothing behind a cursor that is still followed. -/
theorem Follows.restores (follows : b.Follows seq lines) (restores : b.Restores b')
    (held : b.nextSeq - 1 - seq ≤ b.entries.length) : b'.Follows seq lines := by
  obtain ⟨front, whole⟩ := restores.entries
  refine ⟨?_, ?_, fun _ => ?_⟩
  · rw [restores.nextSeq]
    exact follows.reached
  · intro none
    rw [← whole] at none
    exact follows.empty (append_eq_nil_iff.mp none).2
  · rw [restores.nextSeq, ← whole, rtake_append_of_le held]
    exact follows.newest held

variable {cursor : ReplayCursor}

/-- A cursor is followed from the moment it is handed out. -/
theorem HandsOut.follows (sound : b.Sound cap epoch)
    (handed : b.HandsOut cursor lines) : b.Follows cursor.seq lines := by
  have within := sound.within
  cases handed with
  | position =>
    have newest : b.position + 1 = b.nextSeq := by
      show b.nextSeq - 1 + 1 = b.nextSeq
      omega
    have none_behind : b.nextSeq - 1 - b.position = 0 := by omega
    refine ⟨Nat.lt_of_lt_of_eq (Nat.lt_succ_self _) newest, fun _ => rfl, fun _ => ?_⟩
    rw [none_behind, rtake_zero]
    rfl
  | @line front back line entries =>
    have numbered := sound.numbered
    rw [entries] at numbered within
    have here : line.seq + (back.length + 1) = b.nextSeq := numbered.of_append.1
    have behind : b.nextSeq - 1 - line.seq = back.length := by omega
    refine ⟨show line.seq < b.nextSeq by omega, fun none => ?_, fun _ => ?_⟩
    · exact absurd (entries.symm.trans none) (by simp)
    · rw [behind, entries, ← singleton_append, ← append_assoc,
        rtake_append_of_le le_rfl, rtake, Nat.sub_self, drop_zero]

theorem map_line_collect (entries : List (RingEntry Snapshot)) :
    (collect none entries).1.map (·.line) = entries.filterMap RingEntry.text := by
  have collected (read : List BufferedLine × List (ℕ × Snapshot)) :
      (entries.foldl (collectEntry none) read).1.map (·.line) =
        read.1.map (·.line) ++ entries.filterMap RingEntry.text := by
    induction entries generalizing read with
    | nil => simp
    | cons entry entries ih =>
      rw [foldl_cons, ih]
      cases entry with
      | line line => simp [collectEntry, keeps, RingEntry.text]
      | session seq snapshot =>
        rw [filterMap_cons_none rfl]
        rfl
  exact collected ([], [])

/-- What is replayed behind a followed cursor, where it is honoured. -/
theorem Follows.replay (follows : b.Follows cursor.seq lines) (sound : b.Sound cap epoch)
    (resumed : (b.replayAfter none (some cursor)).resumed = true) :
    (b.replayAfter none (some cursor)).lines.map (·.line) = lines := by
  have honoured : b.honours cursor = true := by
    simpa [replayAfter, Option.isSome_filter] using resumed
  have replayed : (b.replayAfter none (some cursor)).lines.map (·.line) =
      (b.entries.rtake (b.nextSeq - 1 - cursor.seq)).filterMap RingEntry.text := by
    simp only [replayAfter, Option.filter_some, honoured, if_true, Option.elim_some]
    rw [map_line_collect, sound.numbered.filter_eq]
  rw [replayed]
  cases entries : b.entries with
  | nil => rw [follows.empty entries, rtake_nil, filterMap_nil]
  | cons oldest rest =>
    rw [← entries]
    refine follows.newest ?_
    have numbered := sound.numbered
    rw [entries] at numbered
    have here : oldest.seq + (rest.length + 1) = b.nextSeq := numbered.1
    simp only [honours, entries, head?_cons, Option.all_some, Bool.and_eq_true,
      decide_eq_true_eq] at honoured
    have oldest_within := honoured.2
    rw [entries, length_cons]
    omega

end Buffer

/-! ## Runs -/

section

variable {cap epoch : ℕ} {events front later : List (Event Snapshot)} {b s t : Buffer Snapshot}
  {ok : List (Event Snapshot) → Buffer Snapshot → Event Snapshot → Prop}
  {cursor : ReplayCursor} {behind : List Bytes}

section

variable (run : (ring Snapshot cap epoch).Run ok events b)
include run

theorem sound_of_run : b.Sound cap epoch := by
  refine run.invariant (P := fun _ b => b.Sound cap epoch) sound_new ?_
  intro _ b event _ sound _ step
  cases event with
  | push line =>
    cases step
    exact sound.enters (enters_push none line b)
  | pushSession snapshot =>
    cases step
    exact sound.enters (enters_pushSession snapshot b)
  | preloadFront older =>
    cases step
    exact sound.restores (sound.restores_preloadFront older)

/-- Before anything is restored, every position is one that was pushed. -/
theorem cap_le_of_run
    (none : events.countP Event.isPreload = 0) : b.entries.length + cap + 1 ≤ b.nextSeq := by
  refine run.invariant (P := fun events b => events.countP Event.isPreload = 0 →
    b.entries.length + cap + 1 ≤ b.nextSeq) (fun _ => by simp [ring, new]) ?_ none
  intro events b event b' low _ step none
  rw [countP_append, Nat.add_eq_zero_iff] at none
  have before := low none.1
  have one_more {entry : RingEntry Snapshot} (enters : b.Enters entry b') :
      b'.entries.length + cap + 1 ≤ b'.nextSeq := by
    obtain ⟨kept, suffix, entries⟩ := enters.entries
    have shorter := suffix.length_le
    rw [entries, enters.nextSeq, length_append, length_singleton]
    omega
  cases event with
  | push line =>
    cases step
    exact one_more (enters_push .none line b)
  | pushSession snapshot =>
    cases step
    exact one_more (enters_pushSession snapshot b)
  | preloadFront older => exact absurd none.2 (by simp [Event.isPreload])

theorem cap_le_of_handsOut
    (none : events.countP Event.isPreload = 0) (handed : b.HandsOut cursor behind) :
    cap ≤ cursor.seq := by
  have low := cap_le_of_run run none
  cases handed with
  | position =>
    show cap ≤ b.nextSeq - 1
    omega
  | @line front back line entries =>
    have numbered := (sound_of_run run).numbered
    rw [entries] at numbered low
    have here : line.seq + (back.length + 1) = b.nextSeq := numbered.of_append.1
    simp only [length_append, length_cons] at low
    show cap ≤ line.seq
    omega

end

/-- A cursor is followed through every run that reads storage back in time. -/
theorem follows_of_run (start : (ring Snapshot cap epoch).Run System.anyStep front s)
    (handed : s.HandsOut cursor behind)
    (run : (ring Snapshot cap epoch).Run (fun _ b event => b.ReadsBackInTime event)
      (front ++ later) t)
    (once : (front ++ later).countP Event.isPreload ≤ 1) :
    t.Follows cursor.seq (behind ++ later.filterMap Event.line?) := by
  induction later using reverseRecOn generalizing t with
  | nil =>
    rw [append_nil] at run
    obtain rfl := start.unique run
    rw [filterMap_nil, append_nil]
    exact handed.follows (sound_of_run start)
  | append_singleton later event ih =>
    rw [← append_assoc] at run once
    obtain ⟨b, prior, inTime, step⟩ := run.snoc_inv
    rw [countP_append] at once
    have follows := ih prior (by omega)
    rw [filterMap_append, ← append_assoc]
    cases event with
    | push line =>
      cases step
      exact follows.enters (enters_push none line b)
    | pushSession snapshot =>
      cases step
      exact follows.enters (enters_pushSession snapshot b)
    | preloadFront older =>
      cases step
      rw [filterMap_cons_none rfl, filterMap_nil, append_nil]
      rcases inTime with unshed | none
      · have restores := (sound_of_run prior).restores_preloadFront older
        -- nothing was restored before, so the cursor is at or above the ring's start
        have first : (front ++ later).countP Event.isPreload = 0 := by
          simp only [countP_singleton, Event.isPreload, if_true] at once
          omega
        have above := cap_le_of_handsOut start
          (Nat.eq_zero_of_le_zero ((countP_append ▸ Nat.le_add_right _ _).trans first.le))
          handed
        refine follows.restores restores ?_
        have unshed : b.nextSeq = b.cap + 1 + b.entries.length := unshed
        have same := (sound_of_run prior).cap
        omega
      · rw [preloadFront_of_restoresNone none]
        exact follows

/-- A cursor that is honoured is resumed exactly, in every run that reads storage
back at most once and in time. -/
theorem ring_resumes_exactly (cap epoch : ℕ) (front later : List (Event Snapshot))
    (s t : Buffer Snapshot) (cursor : ReplayCursor) (behind : List Bytes)
    (start : (ring Snapshot cap epoch).Run System.anyStep front s)
    (run : (ring Snapshot cap epoch).Run (fun _ b event => b.ReadsBackInTime event)
      (front ++ later) t)
    (once : (front ++ later).countP Event.isPreload ≤ 1)
    (handed : s.HandsOut cursor behind)
    (resumed : (t.replayAfter none (some cursor)).resumed = true) :
    (t.replayAfter none (some cursor)).lines.map (·.line) = behind ++ later.filterMap Event.line? :=
  (follows_of_run start handed run once).replay (sound_of_run run) resumed

end

def storedOld : StoredBacklogLine :=
  ⟨ascii ":x PRIVMSG y :old", ascii "2026-01-01T00:00:00.000Z"⟩

theorem ring_resumes_exactly_after_restoring :
    ∃ s t : Buffer Unit, s.HandsOut ⟨7, 4⟩ [] ∧
      (ring Unit 3 7).Run System.anyStep [.push (ascii "one")] s ∧
      (t.replayAfter none (some ⟨7, 4⟩)).resumed = true ∧
      (t.replayAfter none (some ⟨7, 4⟩)).lines.map (·.line) = [ascii "two"] := by
  let front : List (Event Unit) := [.push (ascii "one")]
  let later : List (Event Unit) := [.preloadFront [storedOld], .push (ascii "two")]
  let checked := (ring Unit 3 7).restrict fun b event => decide (b.ReadsBackInTime event)
  have start : (ring Unit 3 7).exec front = some ((new 3 7).push none (ascii "one")) := rfl
  obtain ⟨t, replay, honoured⟩ : ∃ t, checked.exec (front ++ later) = some t ∧
      (t.replayAfter none (some ⟨7, 4⟩)).resumed = true := by
    have observed : (checked.exec (front ++ later)).map
        (fun t => (t.replayAfter none (some ⟨7, 4⟩)).resumed) = some true := by decide +kernel
    exact Option.map_eq_some_iff.mp observed
  have inTime := (System.run_of_exec replay).of_restrict.mono
    fun _ _ _ meets => of_decide_eq_true meets
  have handed : ((new 3 7 : Buffer Unit).push none (ascii "one")).HandsOut ⟨7, 4⟩ [] :=
    .position
  exact ⟨_, t, handed, System.run_of_exec start, honoured, ring_resumes_exactly 3 7 front later _ t
    _ _ (System.run_of_exec start) inTime (by decide) handed honoured⟩

/-- Two lines of 600 bytes, of which the second evicts the first, and then a stored
line: it takes the first one's position. -/
theorem ring_resumes_among_restored :
    ∃ (s t : Buffer Unit) (later : List (Event Unit)),
      (ring Unit 2 7).Run System.anyStep [] s ∧ (ring Unit 2 7).Run System.anyStep ([] ++ later) t ∧
      ([] ++ later).countP Event.isPreload ≤ 1 ∧ s.HandsOut ⟨7, 2⟩ [] ∧
      (t.replayAfter none (some ⟨7, 2⟩)).resumed = true ∧
      (t.replayAfter none (some ⟨7, 2⟩)).lines.map (·.line) ≠
        [] ++ later.filterMap Event.line? := by
  let later : List (Event Unit) := [.push (replicate 600 (byte 'a')),
    .push (replicate 600 (byte 'b')), .preloadFront [storedOld]]
  obtain ⟨t, replay, honoured, differ⟩ : ∃ t, (ring Unit 2 7).exec ([] ++ later) = some t ∧
      (t.replayAfter none (some ⟨7, 2⟩)).resumed = true ∧
      (t.replayAfter none (some ⟨7, 2⟩)).lines.map (·.line) ≠
        [] ++ later.filterMap Event.line? := by
    have observed : ((ring Unit 2 7).exec ([] ++ later)).map
        (fun t => ((t.replayAfter none (some ⟨7, 2⟩)).resumed,
          decide ((t.replayAfter none (some ⟨7, 2⟩)).lines.map (·.line) =
            [] ++ later.filterMap Event.line?))) = some (true, false) := by decide +kernel
    obtain ⟨t, replay, seen⟩ := Option.map_eq_some_iff.mp observed
    rw [Prod.mk.injEq] at seen
    exact ⟨t, replay, seen.1, of_decide_eq_false seen.2⟩
  exact ⟨_, t, later, .nil, System.run_of_exec replay, by decide, .position, honoured, differ⟩

end E6irc.Bouncer
