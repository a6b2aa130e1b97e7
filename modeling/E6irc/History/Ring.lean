import E6irc.Base.Placed
import E6irc.History.Row

/-!
# One target's hot ring

`HistoryRing` of `core/hot_history.rs`: entries in the order of their places,
bounded in number and in bytes, shedding from the oldest end.  Arrivals come in
any order.  The ring remembers the place of the newest entry it shed and takes
in nothing placed before it.

`Holds lost ring` states what that gives: `lost ++ ring.entries` is the record
of everything pushed, in order, and everything lost lies at or before the place
remembered.  `HistoryRing.Holds.push` is the step and `ringAfter_holds` the run.
-/

namespace E6irc

open Base List HistoryRow

/-! ## The newest timestamp of a scope -/

structure ScopeNewest where
  held : ℕ
  newest : Option Millis
deriving DecidableEq, Repr

namespace ScopeNewest

def push (scope : ScopeNewest) (ts : Millis) : ScopeNewest :=
  ⟨scope.held + 1, some (scope.newest.elim ts (max · ts))⟩

def expireOldest (scope : ScopeNewest) : ScopeNewest :=
  let held := scope.held - 1
  ⟨held, if held = 0 then none else scope.newest⟩

end ScopeNewest

structure ScopedMaxima where
  text : ScopeNewest
  textAndTags : ScopeNewest
deriving DecidableEq, Repr

namespace ScopedMaxima

def empty : ScopedMaxima := ⟨⟨0, none⟩, ⟨0, none⟩⟩

/-- Apply `change` in each scope that admits `kind`. -/
def inScopes (maxima : ScopedMaxima) (kind : HistoryKind) (change : ScopeNewest → ScopeNewest) :
    ScopedMaxima where
  text := if HistoryScope.text.admits kind then change maxima.text else maxima.text
  textAndTags :=
    if HistoryScope.textAndTags.admits kind then change maxima.textAndTags else maxima.textAndTags

def push (maxima : ScopedMaxima) (entry : HistoryRow) : ScopedMaxima :=
  maxima.inScopes entry.kind (·.push entry.ts)

def expireOldest (maxima : ScopedMaxima) (oldest : HistoryRow) : ScopedMaxima :=
  maxima.inScopes oldest.kind ScopeNewest.expireOldest

end ScopedMaxima

/-! ## The ring -/

def historyRingCap : ℕ := 500

structure HistoryRing where
  entries : List HistoryRow
  complete : Bool
  shedThrough : Option (Millis × Bytes)
  maxima : ScopedMaxima
  bytes : ℕ
deriving DecidableEq, Repr

namespace HistoryRing

def new (complete : Bool) : HistoryRing :=
  ⟨[], complete, none, .empty, 0⟩

/-- The place of the newest entry shed. -/
def shedPlace (ring : HistoryRing) : Option HistoryPlace :=
  ring.shedThrough.map fun shed => ⟨shed.1, some shed.2⟩

/-- The entry is placed before something already shed. -/
def refuses (ring : HistoryRing) (entry : HistoryRow) : Bool :=
  ring.shedPlace.any fun shed => entry.place < shed

/-- The loop condition: too many entries, or too many bytes in more than one. -/
def overBounds (ring : HistoryRing) (budget : ℕ) : Bool :=
  historyRingCap < ring.entries.length || (budget < ring.bytes && 1 < ring.entries.length)

/-- The loop body: the front entry leaves. -/
def popOldest (ring : HistoryRing) : HistoryRing :=
  match ring.entries with
  | [] => ring
  | oldest :: rest =>
    { entries := rest
      complete := false
      shedThrough := some (oldest.ts, oldest.msgid)
      maxima := ring.maxima.expireOldest oldest
      bytes := ring.bytes - footprint oldest }

/-- The shedding loop, at most `fuel` rounds.  Every round drops an entry, so
the number of entries is enough (`shedOver_within`). -/
def shedOver (budget : ℕ) : ℕ → HistoryRing → HistoryRing
  | 0, ring => ring
  | fuel + 1, ring => if ring.overBounds budget then shedOver budget fuel ring.popOldest else ring

/-- The ring with the entry in its place, before any shedding. -/
def withEntry (ring : HistoryRing) (entry : HistoryRow) : HistoryRing :=
  let at_ := (rposition (fun held => decide (held.place ≤ entry.place)) ring.entries).elim 0 (· + 1)
  { ring with
    entries := ring.entries.insertIdx at_ entry
    maxima := ring.maxima.push entry
    bytes := ring.bytes + footprint entry }

def push (ring : HistoryRing) (entry : HistoryRow) (budget : ℕ) : HistoryRing :=
  if ring.refuses entry then ring
  else
    let ring := ring.withEntry entry
    ring.shedOver budget ring.entries.length

/-! ## What shedding does -/

/-- `after` is `before` with its `k` oldest entries shed, the newest kept. -/
structure Sheds (k : ℕ) (before after : HistoryRing) : Prop where
  entries : after.entries = before.entries.drop k
  unchanged : k = 0 → after = before
  incomplete : 0 < k → after.complete = false
  shedPlace : 0 < k → ∃ front last,
    before.entries.take k = front ++ [last] ∧ after.shedPlace = some last.place
  kept : 0 < k → k < before.entries.length

theorem one_lt_of_overBounds {ring : HistoryRing} {budget : ℕ}
    (excess : ring.overBounds budget = true) : 1 < ring.entries.length := by
  simp only [overBounds, Bool.or_eq_true, Bool.and_eq_true, decide_eq_true_eq] at excess
  have cap : 1 < historyRingCap := by decide
  omega

theorem Sheds.refl (ring : HistoryRing) : Sheds 0 ring ring where
  entries := rfl
  unchanged _ := rfl
  incomplete pos := absurd pos (lt_irrefl 0)
  shedPlace pos := absurd pos (lt_irrefl 0)
  kept pos := absurd pos (lt_irrefl 0)

/-- Shedding after the front entry left sheds one more. -/
theorem Sheds.of_popOldest {k : ℕ} {ring after : HistoryRing} (more : 1 < ring.entries.length)
    (sheds : Sheds k ring.popOldest after) : Sheds (k + 1) ring after := by
  obtain ⟨oldest, rest, split⟩ := exists_cons_of_length_pos (Nat.zero_lt_of_lt more)
  have popped : ring.popOldest.entries = rest := by simp [popOldest, split]
  rcases Nat.eq_zero_or_pos k with rfl | pos
  · obtain rfl := sheds.unchanged rfl
    refine ⟨by simp [popped, split], fun h => absurd h (by simp), fun _ => ?_,
      fun _ => ⟨[], oldest, by simp [split], ?_⟩, fun _ => more⟩
    · simp [popOldest, split]
    · simp [popOldest, split, HistoryRing.shedPlace, place]
  · obtain ⟨front, last, taken, shed⟩ := sheds.shedPlace pos
    rw [popped] at taken
    have room := sheds.kept pos
    rw [popped] at room
    exact ⟨by simp [sheds.entries, popped, split], fun h => absurd h (by simp),
      fun _ => sheds.incomplete pos, fun _ => ⟨oldest :: front, last, by simp [split, taken], shed⟩,
      fun _ => by simp [split, room]⟩

/-- The loop sheds some number of the oldest entries, and sheds at all exactly
when it starts over its bounds. -/
theorem shedOver_sheds (budget fuel : ℕ) (ring : HistoryRing) :
    ∃ k, Sheds k ring (shedOver budget fuel ring) ∧
      (0 < k ↔ 0 < fuel ∧ ring.overBounds budget = true) := by
  induction fuel generalizing ring with
  | zero => exact ⟨0, .refl ring, by simp⟩
  | succ fuel ih =>
    by_cases excess : ring.overBounds budget = true
    · obtain ⟨k, sheds, -⟩ := ih ring.popOldest
      refine ⟨k + 1, ?_, by simp [excess]⟩
      rw [shedOver, if_pos excess]
      exact sheds.of_popOldest (one_lt_of_overBounds excess)
    · refine ⟨0, ?_, by simp [excess]⟩
      rw [shedOver, if_neg excess]
      exact .refl ring

/-- As many rounds as there are entries end the loop: the ring is within its
bounds. -/
theorem shedOver_within (budget fuel : ℕ) (ring : HistoryRing)
    (enough : ring.entries.length ≤ fuel) : (shedOver budget fuel ring).overBounds budget = false := by
  induction fuel generalizing ring with
  | zero =>
    refine Bool.eq_false_iff.mpr fun excess => ?_
    have := one_lt_of_overBounds excess
    simp only [shedOver] at this
    omega
  | succ fuel ih =>
    by_cases excess : ring.overBounds budget = true
    · rw [shedOver, if_pos excess]
      refine ih _ ?_
      have := one_lt_of_overBounds excess
      cases split : ring.entries with
      | nil => simp [split] at this
      | cons oldest rest =>
        simp only [popOldest, split]
        simpa [split] using enough
    · rw [shedOver, if_neg excess]
      exact Bool.eq_false_iff.mpr excess

/-! ## What a push does -/

variable {ring : HistoryRing} {entry : HistoryRow} {lost : List HistoryRow}

theorem withEntry_entries (placed : Placed place ring.entries) :
    (ring.withEntry entry).entries = insertPlaced place entry ring.entries :=
  placed.insertIdx_rposition

theorem push_of_refuses (refused : ring.refuses entry = true) (budget : ℕ) :
    ring.push entry budget = ring := by
  simp [push, refused]

theorem push_sheds (taken : ring.refuses entry = false) (budget : ℕ) :
    ∃ k, Sheds k (ring.withEntry entry) (ring.push entry budget) ∧
      (0 < k ↔ (ring.withEntry entry).overBounds budget = true) := by
  obtain ⟨k, sheds, shed_iff⟩ := shedOver_sheds budget (ring.withEntry entry).entries.length
    (ring.withEntry entry)
  refine ⟨k, by simpa [push, taken] using sheds, shed_iff.trans ⟨And.right, fun excess => ⟨?_, excess⟩⟩⟩
  have := one_lt_of_overBounds excess
  omega

/-- What every ring keeps, whatever record it is compared with. -/
structure Sound (ring : HistoryRing) : Prop where
  placed : Placed place ring.entries
  above : ∀ shed ∈ ring.shedPlace, ∀ held ∈ ring.entries, shed ≤ held.place
  uncut : ring.complete = true → ring.shedPlace = none

/-- The ring holds the newest part of a record whose older part is `lost`, and
everything lost is at or before the place it remembers. -/
structure Holds (lost : List HistoryRow) (ring : HistoryRing) : Prop where
  sound : ring.Sound
  placed : Placed place (lost ++ ring.entries)
  below : ∀ a ∈ lost, ∃ shed ∈ ring.shedPlace, a.place ≤ shed

theorem Holds.whole (holds : Holds lost ring) (complete : ring.complete = true) : lost = [] := by
  refine eq_nil_iff_forall_not_mem.mpr fun a mem => ?_
  obtain ⟨shed, remembered, -⟩ := holds.below a mem
  simp [holds.sound.uncut complete] at remembered

theorem sound_new (complete : Bool) : (new complete).Sound :=
  ⟨List.Pairwise.nil, by simp [new, shedPlace], fun _ => rfl⟩

theorem refuses_iff : ring.refuses entry = true ↔ ∃ shed ∈ ring.shedPlace, entry.place < shed := by
  simp [refuses, Option.any_eq_true, Option.mem_def]

theorem le_of_taken (taken : ring.refuses entry = false) :
    ∀ shed ∈ ring.shedPlace, shed ≤ entry.place := by
  intro shed remembered
  by_contra lt
  exact absurd (refuses_iff.mpr ⟨shed, remembered, not_le.mp lt⟩) (by simp [taken])

theorem Sound.push (sound : ring.Sound) (entry : HistoryRow) (budget : ℕ) :
    (ring.push entry budget).Sound := by
  by_cases refused : ring.refuses entry = true
  · rwa [push_of_refuses refused]
  have taken := Bool.eq_false_iff.mpr refused
  obtain ⟨k, sheds, -⟩ := push_sheds taken budget
  have inserted := sound.placed.insertPlaced (x := entry)
  rw [← withEntry_entries sound.placed] at inserted
  have cut : Placed place ((ring.withEntry entry).entries.take k ++
      (ring.push entry budget).entries) := by
    rwa [sheds.entries, take_append_drop]
  obtain ⟨-, placed, cross⟩ := pairwise_append.mp cut
  rcases Nat.eq_zero_or_pos k with rfl | pos
  · rw [sheds.unchanged rfl] at placed ⊢
    refine ⟨placed, fun shed remembered held mem => ?_, sound.uncut⟩
    rw [withEntry_entries sound.placed, mem_insertPlaced] at mem
    rcases mem with rfl | mem
    · exact le_of_taken taken shed remembered
    · exact sound.above shed remembered held mem
  · obtain ⟨front, last, gone, shed⟩ := sheds.shedPlace pos
    refine ⟨placed, fun place remembered held mem => ?_, fun whole => ?_⟩
    · obtain rfl : last.place = place := by simpa [shed] using remembered
      exact cross last (by simp [gone]) held mem
    · simp [sheds.incomplete pos] at whole

/-- A push brings in nothing but its entry. -/
theorem Sound.mem_push (sound : ring.Sound) {budget : ℕ} {held : HistoryRow}
    (mem : held ∈ (ring.push entry budget).entries) : held = entry ∨ held ∈ ring.entries := by
  cases refused : ring.refuses entry with
  | true => exact .inr (push_of_refuses refused budget ▸ mem)
  | false =>
    obtain ⟨k, sheds, -⟩ := push_sheds refused budget
    rw [sheds.entries, withEntry_entries sound.placed] at mem
    exact mem_insertPlaced.mp (mem_of_mem_drop mem)

/-- One push: the record takes the entry in its place, and the ring still holds
the record's newest part. -/
theorem Holds.push (holds : Holds lost ring) (entry : HistoryRow) (budget : ℕ) :
    ∃ lost', Holds lost' (ring.push entry budget) ∧
      lost' ++ (ring.push entry budget).entries =
        insertPlaced place entry (lost ++ ring.entries) := by
  have sound := holds.sound.push entry budget
  have placed := holds.placed.insertPlaced (x := entry)
  by_cases refused : ring.refuses entry = true
  · -- Refused: the entry is placed before everything held, so it joins the lost.
    obtain ⟨shed, remembered, lt⟩ := refuses_iff.mp refused
    have older : ∀ held ∈ ring.entries, entry.place < held.place := fun held mem =>
      lt.trans_le (holds.sound.above shed remembered held mem)
    rw [insertPlaced_append_of_lt older] at placed ⊢
    rw [push_of_refuses refused] at sound ⊢
    refine ⟨_, ⟨sound, placed, fun a mem => ?_⟩, rfl⟩
    rcases mem_insertPlaced.mp mem with rfl | mem
    · exact ⟨shed, remembered, lt.le⟩
    · exact holds.below a mem
  · -- Taken: the entry is placed after everything lost, so it joins the held.
    have taken := Bool.eq_false_iff.mpr refused
    have newer : ∀ a ∈ lost, a.place ≤ entry.place := fun a mem => by
      obtain ⟨shed, remembered, le⟩ := holds.below a mem
      exact le.trans (le_of_taken taken shed remembered)
    obtain ⟨k, sheds, -⟩ := push_sheds taken budget
    rw [insertPlaced_append_of_le newer, ← withEntry_entries holds.sound.placed,
      ← take_append_drop k (ring.withEntry entry).entries, ← sheds.entries,
      ← append_assoc] at placed ⊢
    refine ⟨_, ⟨sound, placed, fun a mem => ?_⟩, rfl⟩
    rcases Nat.eq_zero_or_pos k with rfl | pos
    · rw [sheds.unchanged rfl]
      exact holds.below a (by simpa using mem)
    obtain ⟨front, last, gone, shed⟩ := sheds.shedPlace pos
    rw [gone, ← append_assoc] at mem placed
    refine ⟨last.place, shed, ?_⟩
    rcases mem_append.mp mem with mem | mem
    · have upTo := (pairwise_append.mp placed).1
      exact (pairwise_append.mp upTo).2.2 a mem last (by simp)
    · rw [mem_singleton.mp mem]

end HistoryRing

/-- The ring a sequence of pushes, each under its own byte budget, leaves. -/
def ringAfter (ring : HistoryRing) (pushes : List (HistoryRow × ℕ)) : HistoryRing :=
  pushes.foldl (fun ring arrival => ring.push arrival.1 arrival.2) ring

/-- A ring created complete holds the newest part of everything pushed into it,
in order, with nothing missing inside it. -/
theorem ringAfter_holds (pushes : List (HistoryRow × ℕ)) :
    ∃ lost, (ringAfter (.new true) pushes).Holds lost ∧
      lost ++ (ringAfter (.new true) pushes).entries =
        placeAll place (pushes.map Prod.fst) := by
  induction pushes using List.reverseRecOn with
  | nil => exact ⟨[], ⟨HistoryRing.sound_new true, List.Pairwise.nil, by simp⟩, rfl⟩
  | append_singleton pushes arrival ih =>
    obtain ⟨lost, holds, record⟩ := ih
    obtain ⟨lost', holds', record'⟩ := holds.push arrival.1 arrival.2
    refine ⟨lost', ?_, ?_⟩
    · simpa [ringAfter] using holds'
    · rw [map_append, map_singleton, placeAll_snoc, ← record, ← record']
      simp [ringAfter]

end E6irc
