import E6irc.Base.Assoc

/-!
# Tallies

A map from keys to counts in which no count is zero: a key is in the map exactly
as long as something is counted under it.  `add` counts one more under a key and
`takeOne` one fewer, which drops the key with its last.

`Tallies owner held counts` says that a plain map of counts is such a tally of a set:
it has how many elements of `held` belong to each owner, and nothing under an owner
of none.
-/

namespace E6irc.Base

/-- How many are counted under each key. -/
structure Tally (κ : Type) [DecidableEq κ] where
  counts : AList fun _ : κ => ℕ
  positive : ∀ k n, counts.lookup k = some n → 0 < n

namespace Tally

variable {κ : Type} [DecidableEq κ]

def empty : Tally κ where
  counts := ∅
  positive := fun k n held => by simp at held

def count (t : Tally κ) (k : κ) : ℕ :=
  (t.counts.lookup k).getD 0

def keys (t : Tally κ) : List κ :=
  t.counts.keys

/-- Nothing under `k` any more. -/
def drop (t : Tally κ) (k : κ) : Tally κ where
  counts := t.counts.erase k
  positive k' n held := t.positive k' n (of_lookup_erase held).2

/-- The count under `k` replaced by one that is not zero. -/
def put (t : Tally κ) (k : κ) (left : ℕ) (some_left : 0 < left) : Tally κ where
  counts := t.counts.insert k left
  positive := by
    intro k' n held
    rcases of_lookup_insert held with ⟨-, rfl⟩ | ⟨-, before⟩
    · exact some_left
    · exact t.positive k' n before

/-- One more under `k`. -/
def add (t : Tally κ) (k : κ) : Tally κ :=
  t.put k (t.count k + 1) (Nat.succ_pos _)

/-- One fewer under `k`, and whether there was one to take. -/
def takeOne (t : Tally κ) (k : κ) : Bool × Tally κ :=
  match t.counts.lookup k with
  | none => (false, t)
  | some n => if left : 0 < n - 1 then (true, t.put k (n - 1) left) else (true, t.drop k)

variable {t : Tally κ} {k k' : κ}

theorem mem_keys : k ∈ t.keys ↔ 0 < t.count k := by
  unfold keys count
  rw [← AList.mem_keys, ← AList.lookup_isSome]
  cases held : t.counts.lookup k with
  | none => simp
  | some n => simpa using t.positive k n held

theorem count_add : (t.add k).count k' = if k' = k then t.count k + 1 else t.count k' := by
  unfold count add put
  split
  · rename_i same
    subst same
    simp [count]
  · rename_i apart
    simp [AList.lookup_insert_ne apart]

theorem takeOne_fst : (t.takeOne k).1 = decide (0 < t.count k) := by
  unfold takeOne count
  cases held : t.counts.lookup k with
  | none => simp
  | some n =>
    have some_held := t.positive k n held
    by_cases left : 0 < n - 1
    · simp [left, some_held]
    · simp [left, some_held]

theorem count_takeOne :
    (t.takeOne k).2.count k' = if k' = k then t.count k - 1 else t.count k' := by
  unfold takeOne count
  cases held : t.counts.lookup k with
  | none =>
    rcases eq_or_ne k' k with rfl | apart
    · simp [held]
    · simp [apart]
  | some n =>
    by_cases left : 0 < n - 1 <;> rcases eq_or_ne k' k with rfl | apart
    · simp [left, put]
    · simp [left, put, AList.lookup_insert_ne apart, apart]
    · simp [left, drop]
      omega
    · simp [left, drop, AList.lookup_erase_ne apart, apart]

end Tally

/-! ## The elements of a set, counted by owner -/

section Tallies

variable {κ α : Type} [DecidableEq α]

/-- How many elements of `held` belong to `a`. -/
def owned (owner : κ → α) (held : Finset κ) (a : α) : ℕ :=
  (held.filter fun k => owner k = a).card

def Tallies (owner : κ → α) (held : Finset κ) (counts : AList fun _ : α => ℕ) : Prop :=
  ∀ a, counts.lookup a = if owned owner held a = 0 then none else some (owned owner held a)

variable {owner : κ → α} {held : Finset κ} {counts : AList fun _ : α => ℕ} {k : κ}

theorem tallies_empty : Tallies owner (∅ : Finset κ) (∅ : AList fun _ : α => ℕ) :=
  fun a => by simp [owned]

theorem Tallies.getD (tallies : Tallies owner held counts) (a : α) :
    (counts.lookup a).getD 0 = owned owner held a := by
  rw [tallies a]
  split
  · rename_i none
    exact none.symm
  · rfl

/-- Who owns an element is counted. -/
theorem Tallies.lookup_of_mem (tallies : Tallies owner held counts) (among : k ∈ held) :
    ∃ n, counts.lookup (owner k) = some (n + 1) := by
  have some_owned : 0 < owned owner held (owner k) :=
    Finset.card_pos.mpr ⟨k, Finset.mem_filter.mpr ⟨among, rfl⟩⟩
  refine ⟨owned owner held (owner k) - 1, ?_⟩
  rw [tallies, if_neg some_owned.ne', Nat.sub_add_cancel some_owned]

variable [DecidableEq κ]

theorem owned_insert (fresh : k ∉ held) (a : α) :
    owned owner (insert k held) a = owned owner held a + if owner k = a then 1 else 0 := by
  unfold owned
  rw [Finset.filter_insert]
  split
  · exact Finset.card_insert_of_notMem fun among => fresh (Finset.mem_filter.mp among).1
  · rfl

theorem Tallies.add (tallies : Tallies owner held counts) (fresh : k ∉ held) :
    Tallies owner (insert k held)
      (counts.insert (owner k) ((counts.lookup (owner k)).getD 0 + 1)) := by
  intro a
  rw [owned_insert fresh, tallies.getD]
  rcases eq_or_ne a (owner k) with rfl | apart
  · simp
  · rw [AList.lookup_insert_ne apart, tallies a, if_neg (Ne.symm apart), Nat.add_zero]

theorem Tallies.remove (tallies : Tallies owner held counts) (among : k ∈ held) {n : ℕ}
    (found : counts.lookup (owner k) = some (n + 1)) :
    Tallies owner (held.erase k)
      (if n = 0 then counts.erase (owner k) else counts.insert (owner k) n) := by
  have split : ∀ a, owned owner held a =
      owned owner (held.erase k) a + if owner k = a then 1 else 0 := by
    intro a
    have rest : owned owner (insert k (held.erase k)) a = owned owner (held.erase k) a + _ :=
      owned_insert (Finset.notMem_erase k held) a
    rwa [Finset.insert_erase among] at rest
  have here := tallies.getD (owner k)
  rw [found, split, if_pos rfl] at here
  have left : owned owner (held.erase k) (owner k) = n := (Nat.succ.inj here).symm
  intro a
  rcases eq_or_ne a (owner k) with rfl | apart
  · rw [left]
    split
    · simp
    · simp
  · have same := split a
    rw [if_neg (Ne.symm apart), Nat.add_zero] at same
    rw [← same, ← tallies a]
    split
    · exact AList.lookup_erase_ne apart
    · exact AList.lookup_insert_ne apart

end Tallies

end E6irc.Base
