import E6irc.Base.Assoc
import E6irc.Base.Machine

/-!
# Least-recently-used order

`Recency` of `src/recency.rs`.  Each live key has a current stamp; the queue
holds `(stamp, key)` pairs, oldest first, of which only those matching the map
are live.  Stale pairs are skipped when they reach the front and dropped when
they outnumber the live keys.

`live` is what the structure means: the held keys, least recently used first.
Each operation is related to the plain list operation on it (`live_touch`,
`live_remove`, `popOldest_eq`), so any sequence of operations gives the results that
the plain list gives (`agrees_with_a_list`).
-/

namespace E6irc

open Base List AList

universe u

def compactionSlack : ℕ := 32

structure Recency (K : Type u) where
  stamps : AList fun _ : K => ℕ
  order : List (ℕ × K)
  next : ℕ

namespace Recency

variable {K : Type u} [DecidableEq K]

def empty : Recency K := ⟨∅, [], 0⟩

def len (recency : Recency K) : ℕ := recency.stamps.keys.length

/-- A queued pair is live when the map holds its key at its stamp. -/
def isLive (recency : Recency K) (pair : ℕ × K) : Bool :=
  recency.stamps.lookup pair.2 == some pair.1

def compactIfSparse (recency : Recency K) : Recency K :=
  if 2 * recency.len + compactionSlack < recency.order.length then
    { recency with order := recency.order.filter recency.isLive }
  else recency

/-- Make `key` the most recently used, adding it when absent. -/
def touch (recency : Recency K) (key : K) : Recency K :=
  compactIfSparse
    { stamps := recency.stamps.insert key recency.next
      order := recency.order ++ [(recency.next, key)]
      next := recency.next + 1 }

/-- Forget `key`; whether it was present. -/
def remove (recency : Recency K) (key : K) : Bool × Recency K :=
  if (recency.stamps.lookup key).isSome then
    (true, compactIfSparse { recency with stamps := recency.stamps.erase key })
  else (false, recency)

/-- The loop of `popOldest`: skip stale pairs up to the first live one. -/
def popFrom (recency : Recency K) : List (ℕ × K) → Option K × Recency K
  | [] => (none, { recency with order := [] })
  | pair :: rest =>
    if recency.isLive pair then
      (some pair.2, { recency with stamps := recency.stamps.erase pair.2, order := rest })
    else recency.popFrom rest

/-- Remove and return the least recently used key. -/
def popOldest (recency : Recency K) : Option K × Recency K :=
  recency.popFrom recency.order

/-! ## The keys held, least recently used first -/

def live (recency : Recency K) : List K :=
  (recency.order.filter recency.isLive).map Prod.snd

structure Sound (recency : Recency K) : Prop where
  ascending : recency.order.Pairwise (·.1 < ·.1)
  queued : ∀ key stamp, recency.stamps.lookup key = some stamp → (stamp, key) ∈ recency.order
  fresh : ∀ pair ∈ recency.order, pair.1 < recency.next

variable {recency : Recency K} {key : K}

theorem isLive_iff {pair : ℕ × K} :
    recency.isLive pair = true ↔ recency.stamps.lookup pair.2 = some pair.1 := by
  simp [isLive]

theorem sound_empty : (empty : Recency K).Sound :=
  ⟨List.Pairwise.nil, by simp [empty], by simp [empty]⟩

theorem live_nodup (sound : recency.Sound) : recency.live.Nodup := by
  refine pairwise_map.mpr (List.Pairwise.imp_of_mem ?_ (sound.ascending.filter _))
  intro p q memP memQ lt same
  have liveP := isLive_iff.mp (mem_filter.mp memP).2
  have liveQ := isLive_iff.mp (mem_filter.mp memQ).2
  rw [same, liveQ] at liveP
  exact Nat.ne_of_lt lt (Option.some.inj liveP).symm

theorem mem_live (sound : recency.Sound) : key ∈ recency.live ↔ key ∈ recency.stamps := by
  rw [← lookup_isSome, Option.isSome_iff_exists]
  constructor
  · intro mem
    obtain ⟨pair, queued, rfl⟩ := mem_map.mp mem
    exact ⟨pair.1, isLive_iff.mp (mem_filter.mp queued).2⟩
  · rintro ⟨stamp, held⟩
    exact mem_map.mpr ⟨(stamp, key),
      mem_filter.mpr ⟨sound.queued key stamp held, isLive_iff.mpr held⟩, rfl⟩

theorem length_live (sound : recency.Sound) : recency.live.length = recency.len := by
  refine List.Perm.length_eq ((perm_ext_iff_of_nodup (live_nodup sound)
    recency.stamps.keys_nodup).mpr fun key => ?_)
  rw [mem_live sound, AList.mem_keys]

/-! ## Compaction changes nothing held -/

theorem Sound.compactIfSparse (sound : recency.Sound) : recency.compactIfSparse.Sound := by
  unfold Recency.compactIfSparse
  split
  · refine ⟨sound.ascending.filter _, fun key stamp held => ?_, fun pair mem => ?_⟩
    · exact mem_filter.mpr ⟨sound.queued key stamp held, isLive_iff.mpr held⟩
    · exact sound.fresh pair (mem_filter.mp mem).1
  · exact sound

theorem live_compactIfSparse : recency.compactIfSparse.live = recency.live := by
  unfold compactIfSparse
  split
  · change ((recency.order.filter recency.isLive).filter recency.isLive).map Prod.snd = _
    simp only [filter_filter, Bool.and_self, live]
  · rfl

/-! ## The operations on the list -/

section

variable (sound : recency.Sound)
include sound

theorem Sound.push (key : K) : Sound
    { stamps := recency.stamps.insert key recency.next
      order := recency.order ++ [(recency.next, key)]
      next := recency.next + 1 } := by
  refine ⟨?_, fun other stamp held => ?_, fun pair mem => ?_⟩
  · refine pairwise_append.mpr ⟨sound.ascending, pairwise_singleton _ _, ?_⟩
    intro pair mem last memLast
    rw [mem_singleton.mp memLast]
    exact sound.fresh pair mem
  · rcases of_lookup_insert held with ⟨rfl, rfl⟩ | ⟨-, before⟩
    · simp
    · exact mem_append_left _ (sound.queued other stamp before)
  · rcases mem_append.mp mem with mem | mem
    · exact Nat.lt_succ_of_lt (sound.fresh pair mem)
    · simp [mem_singleton.mp mem]

theorem Sound.touch (key : K) : (recency.touch key).Sound := (sound.push key).compactIfSparse

/-- Dropping the live pairs of one key drops it from the keys held. -/
theorem map_filter_ne (key : K) :
    (recency.order.filter fun pair => recency.isLive pair && decide (pair.2 ≠ key)).map Prod.snd =
      recency.live.erase key := by
  rw [(live_nodup sound).erase_eq_filter, live, filter_map, filter_filter]
  congr 2
  funext pair
  by_cases same : pair.2 = key <;> simp [same]

theorem live_touch (key : K) : (recency.touch key).live = recency.live.erase key ++ [key] := by
  rw [touch, live_compactIfSparse, live, filter_append, map_append, ← map_filter_ne sound]
  congr 1
  · congr 1
    refine filter_congr fun pair mem => ?_
    have older := Nat.ne_of_lt (sound.fresh pair mem)
    by_cases same : pair.2 = key
    · subst same
      simp [isLive, older.symm]
    · simp [isLive, lookup_insert_ne same, same]
  · simp [isLive]

theorem Sound.erase (key : K) : Sound { recency with stamps := recency.stamps.erase key } := by
  exact ⟨sound.ascending, fun other stamp held =>
    sound.queued other stamp (of_lookup_erase held).2, sound.fresh⟩

theorem Sound.remove (key : K) : (recency.remove key).2.Sound := by
  unfold Recency.remove
  split
  · exact (sound.erase key).compactIfSparse
  · exact sound

theorem live_remove (key : K) : (recency.remove key).2.live = recency.live.erase key := by
  unfold remove
  split
  · rw [live_compactIfSparse, live, ← map_filter_ne sound]
    congr 1
    refine filter_congr fun pair _ => ?_
    by_cases same : pair.2 = key
    · subst same
      simp [isLive]
    · simp [isLive, lookup_erase_ne same, same]
  · next absent =>
      rw [erase_of_not_mem]
      rwa [mem_live sound, ← lookup_isSome]

end

/-- The loop returns the first live key of what it is given. -/
theorem popFrom_eq (recency : Recency K) (order : List (ℕ × K)) :
    (order.filter recency.isLive = [] ∧
      recency.popFrom order = (none, { recency with order := [] })) ∨
    ∃ pair rest, order.filter recency.isLive = pair :: rest.filter recency.isLive ∧
      rest <:+ order ∧ recency.isLive pair = true ∧
      recency.popFrom order =
        (some pair.2, { recency with stamps := recency.stamps.erase pair.2, order := rest }) := by
  induction order with
  | nil => exact .inl ⟨rfl, rfl⟩
  | cons pair order ih =>
    by_cases alive : recency.isLive pair = true
    · refine .inr ⟨pair, order, ?_, suffix_cons pair order, alive, ?_⟩
      · simp [alive]
      · simp [popFrom, alive]
    · rcases ih with ⟨none, popped⟩ | ⟨found, rest, split, part, alive', popped⟩
      · exact .inl ⟨by simp [alive, none], by simp [popFrom, alive, popped]⟩
      · exact .inr ⟨found, rest, by simp [alive, split], part.trans (suffix_cons _ _),
          alive', by simp [popFrom, alive, popped]⟩

/-- Popping takes the head of the list, and fails only on an empty one. -/
theorem popOldest_eq (sound : recency.Sound) :
    recency.popOldest.2.Sound ∧ recency.popOldest.1 = recency.live.head? ∧
      recency.popOldest.2.live = recency.live.tail := by
  unfold popOldest
  rcases popFrom_eq recency recency.order with ⟨none, popped⟩ | ⟨pair, rest, split, part, alive, popped⟩
  · have nothing : recency.live = [] := by simp [live, none]
    have unheld (key : K) (stamp : ℕ) : recency.stamps.lookup key ≠ some stamp := fun held => by
      have mem : key ∈ recency.live := (mem_live sound).mpr (lookup_isSome.mp (by simp [held]))
      simp [nothing] at mem
    rw [popped, nothing]
    exact ⟨⟨List.Pairwise.nil, fun key stamp held => absurd held (unheld key stamp), by simp⟩,
      rfl, rfl⟩
  · rw [popped]
    have held : recency.live = pair.2 :: (rest.filter recency.isLive).map Prod.snd := by
      simp [live, split]
    have once := held ▸ live_nodup sound
    -- A live pair left in the queue is of another key, so it stays live.
    have other (p : ℕ × K) (mem : p ∈ rest) (live : recency.isLive p = true) : p.2 ≠ pair.2 :=
      fun same => (nodup_cons.mp once).1
        (mem_map.mpr ⟨p, mem_filter.mpr ⟨mem, live⟩, same⟩)
    refine ⟨⟨sound.ascending.sublist part.sublist, fun key stamp current => ?_,
      fun p mem => sound.fresh p (part.mem mem)⟩, by simp [held], ?_⟩
    · by_cases same : key = pair.2
      · subst same
        simp at current
      rw [lookup_erase_ne same] at current
      have mem : (stamp, key) ∈ recency.order.filter recency.isLive :=
        mem_filter.mpr ⟨sound.queued key stamp current, isLive_iff.mpr current⟩
      rw [split] at mem
      rcases mem_cons.mp mem with rfl | mem
      · exact absurd rfl same
      · exact (mem_filter.mp mem).1
    · rw [held, tail_cons, live]
      congr 1
      refine filter_congr fun p mem => ?_
      by_cases same : p.2 = pair.2
      · have dead : recency.isLive p = false :=
          Bool.eq_false_iff.mpr fun live => other p mem live same
        have gone : (recency.stamps.erase pair.2).lookup p.2 = none :=
          lookup_eq_none.mpr (by simp [mem_erase, same])
        rw [dead]
        simp [isLive, gone]
      · simp [isLive, lookup_erase_ne same]

/-! ## Sequences of operations -/

inductive Op (K : Type u) : Type u
  | touch (key : K)
  | remove (key : K)
  | popOldest

/-- What an operation returns. -/
inductive Result (K : Type u) : Type u
  | unit
  | removed (present : Bool)
  | popped (key : Option K)
  deriving DecidableEq

def apply (recency : Recency K) : Op K → Result K × Recency K
  | .touch key => (.unit, recency.touch key)
  | .remove key => (.removed (recency.remove key).1, (recency.remove key).2)
  | .popOldest => (.popped recency.popOldest.1, recency.popOldest.2)

/-- The same operations on a plain list of keys, least recently used first. -/
def applyList (keys : List K) : Op K → Result K × List K
  | .touch key => (.unit, keys.erase key ++ [key])
  | .remove key => (.removed (keys.contains key), keys.erase key)
  | .popOldest => (.popped keys.head?, keys.tail)

theorem remove_eq (sound : recency.Sound) (key : K) :
    (recency.remove key).1 = recency.live.contains key := by
  have held : (recency.stamps.lookup key).isSome = true ↔ recency.live.contains key = true := by
    rw [lookup_isSome, contains_iff_mem, mem_live sound]
  unfold remove
  split
  · next present => exact (held.mp present).symm
  · next absent => exact (Bool.eq_false_iff.mpr (mt held.mpr absent)).symm

/-- One operation gives the list's result and leaves what the list becomes. -/
theorem apply_eq (sound : recency.Sound) (op : Op K) :
    (recency.apply op).1 = (applyList recency.live op).1 ∧ (recency.apply op).2.Sound ∧
      (recency.apply op).2.live = (applyList recency.live op).2 := by
  cases op with
  | touch key => exact ⟨rfl, sound.touch key, live_touch sound key⟩
  | remove key =>
    exact ⟨congrArg Result.removed (remove_eq sound key), sound.remove key, live_remove sound key⟩
  | popOldest =>
    obtain ⟨kept, oldest, rest⟩ := popOldest_eq sound
    exact ⟨congrArg Result.popped oldest, kept, rest⟩

/-- Compaction leaves one pair for each key held. -/
theorem length_compactIfSparse (sound : recency.Sound) :
    recency.compactIfSparse.order.length ≤ 2 * recency.compactIfSparse.len + compactionSlack := by
  unfold compactIfSparse
  split
  · have exact_length := length_live sound
    rw [live, length_map] at exact_length
    change (recency.order.filter recency.isLive).length ≤ 2 * recency.len + compactionSlack
    omega
  · next dense => exact Nat.le_of_not_lt dense

/-- Any sequence of operations returns what it returns on a plain list of distinct keys,
and a touch leaves at most two pairs for each key, and the slack. -/
theorem agrees_with_a_list (ops : List (Op K)) :
    (serve apply empty ops).1 = (serve applyList ([] : List K) ops).1 ∧
      (serve applyList ([] : List K) ops).2.Nodup ∧
      (serve apply empty ops).2.len = (serve applyList ([] : List K) ops).2.length ∧
      ∀ key, ((serve apply empty ops).2.touch key).order.length ≤
        2 * ((serve apply empty ops).2.touch key).len + 32 := by
  have steps : ∀ (recency : Recency K) keys op, recency.Sound ∧ recency.live = keys →
      (recency.apply op).1 = (applyList keys op).1 ∧
        (recency.apply op).2.Sound ∧ (recency.apply op).2.live = (applyList keys op).2 := by
    rintro recency keys op ⟨sound, rfl⟩
    exact apply_eq sound op
  obtain ⟨same, sound, held⟩ := serve_related steps (s := empty) (t := []) ⟨sound_empty, rfl⟩ ops
  rw [List.forall₂_eq_eq_eq] at same
  refine ⟨same, ?_, ?_, fun key => length_compactIfSparse (sound.push key)⟩
  · rw [← held]
    exact live_nodup sound
  · rw [← held]
    exact (length_live sound).symm

end Recency

end E6irc
