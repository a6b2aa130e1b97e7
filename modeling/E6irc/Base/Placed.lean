import Mathlib

/-!
# Lists kept in the order of a key

Elements of `α` are placed by `key : α → κ` in a linear order.  `Placed key l`
says that `l` is in that order, and `insertPlaced key x l` puts `x` after every
element not placed after it, so elements of equal key stay in order of arrival.

The results are about a list cut in two, `lost ++ held`: which part an insertion
goes to (`insertPlaced_append_of_le`, `insertPlaced_append_of_lt`), and when the
later part alone, inserted into and trimmed at its front, is still the end of
the whole (`drop_insertPlaced_suffix_iff`).
-/

namespace E6irc.Base

open List

universe u v

variable {α : Type u} {κ : Type v}

/-! ## Searching from either end -/

/-- The index of the last element satisfying `p`. -/
def rposition (p : α → Bool) (l : List α) : Option ℕ :=
  (l.reverse.findIdx? p).map fun i => l.length - 1 - i

theorem rposition_append (p : α → Bool) (front back : List α)
    (all : ∀ a ∈ front, p a = true) (none : ∀ b ∈ back, p b = false) :
    (rposition p (front ++ back)).elim 0 (· + 1) = front.length := by
  have skip : (back.reverse ++ front.reverse).findIdx? p =
      (front.reverse.findIdx? p).map (· + back.reverse.length) := by
    rw [List.findIdx?_append, List.findIdx?_eq_none_iff.mpr (by simpa using none), Option.none_or]
  rw [rposition, reverse_append, skip]
  rcases front.eq_nil_or_concat with rfl | ⟨init, last, rfl⟩
  · simp
  · have hit : p last = true := all last (by simp)
    simp [List.findIdx?_cons, hit]

theorem insertIdx_length_append (front back : List α) (x : α) :
    (front ++ back).insertIdx front.length x = front ++ x :: back := by
  induction front with
  | nil => simp
  | cons a front ih => simpa using ih

/-! ## Key order and insertion -/

variable [LinearOrder κ] (key : α → κ)

/-- `l` is in key order. -/
def Placed (l : List α) : Prop :=
  l.Pairwise fun a b => key a ≤ key b

/-- Insert `x` after every element not placed after it. -/
def insertPlaced (x : α) (l : List α) : List α :=
  l.orderedInsert (fun a b => key a < key b) x

/-- The record of a sequence of arrivals: each inserted in its place. -/
def placeAll (arrivals : List α) : List α :=
  arrivals.foldl (fun record x => insertPlaced key x record) []

variable {key} {x : α} {l front back lost held : List α}

@[simp] theorem insertPlaced_nil : insertPlaced key x [] = [x] := rfl

theorem perm_insertPlaced : (insertPlaced key x l).Perm (x :: l) := perm_orderedInsert _ x l

@[simp] theorem mem_insertPlaced {a : α} : a ∈ insertPlaced key x l ↔ a = x ∨ a ∈ l := by
  rw [perm_insertPlaced.mem_iff, mem_cons]

@[simp] theorem length_insertPlaced : (insertPlaced key x l).length = l.length + 1 := by
  rw [perm_insertPlaced.length_eq, length_cons]

theorem placeAll_snoc (arrivals : List α) :
    placeAll key (arrivals ++ [x]) = insertPlaced key x (placeAll key arrivals) := by
  simp [placeAll]

theorem perm_placeAll (arrivals : List α) : (placeAll key arrivals).Perm arrivals := by
  induction arrivals using List.reverseRecOn with
  | nil => exact .refl []
  | append_singleton arrivals x ih =>
    rw [placeAll_snoc]
    exact perm_insertPlaced.trans ((ih.cons x).trans (perm_append_singleton x arrivals).symm)

theorem insertPlaced_append_of_le (before : ∀ a ∈ front, key a ≤ key x) :
    insertPlaced key x (front ++ back) = front ++ insertPlaced key x back := by
  induction front with
  | nil => rfl
  | cons a front ih =>
    have here : ¬ key x < key a := not_lt.mpr (before a (by simp))
    have rest := ih fun b mem => before b (by simp [mem])
    simpa [insertPlaced, here] using rest

theorem insertPlaced_of_lt (after : ∀ b ∈ l, key x < key b) : insertPlaced key x l = x :: l := by
  cases l with
  | nil => rfl
  | cons b l => exact orderedInsert_cons_of_le _ l (after b (by simp))

theorem insertPlaced_append_of_lt (after : ∀ b ∈ back, key x < key b) :
    insertPlaced key x (front ++ back) = insertPlaced key x front ++ back := by
  induction front with
  | nil => simpa using insertPlaced_of_lt after
  | cons a front ih =>
    by_cases lt : key x < key a
    · simp [insertPlaced, lt]
    · simpa [insertPlaced, lt] using ih

/-- A list in key order splits at any key: what is not placed after it, then
what is. -/
theorem Placed.split (placed : Placed key l) (bound : κ) :
    ∃ front back, l = front ++ back ∧ (∀ a ∈ front, key a ≤ bound) ∧ ∀ b ∈ back, bound < key b := by
  induction l with
  | nil => exact ⟨[], [], rfl, by simp, by simp⟩
  | cons a l ih =>
    obtain ⟨least, rest⟩ := pairwise_cons.mp placed
    by_cases le : key a ≤ bound
    · obtain ⟨front, back, rfl, low, high⟩ := ih rest
      exact ⟨a :: front, back, rfl, by simpa [le] using low, high⟩
    have lt : bound < key a := not_le.mp le
    refine ⟨[], a :: l, rfl, by simp, fun b mem => ?_⟩
    rcases mem_cons.mp mem with rfl | mem
    · exact lt
    · exact lt.trans_le (least b mem)

theorem Placed.insertPlaced (placed : Placed key l) : Placed key (insertPlaced key x l) := by
  obtain ⟨front, back, rfl, low, high⟩ := placed.split (key x)
  obtain ⟨placedFront, placedBack, cross⟩ := pairwise_append.mp placed
  rw [insertPlaced_append_of_le low, insertPlaced_of_lt high]
  refine pairwise_append.mpr ⟨placedFront, ?_, fun a mem b mem' => ?_⟩
  · exact pairwise_cons.mpr ⟨fun b mem => (high b mem).le, placedBack⟩
  · rcases mem_cons.mp mem' with rfl | mem'
    · exact low a mem
    · exact cross a mem b mem'

theorem placed_placeAll (arrivals : List α) : Placed key (placeAll key arrivals) := by
  induction arrivals using List.reverseRecOn with
  | nil => exact List.Pairwise.nil
  | append_singleton arrivals x ih =>
    rw [placeAll_snoc]
    exact ih.insertPlaced

/-- Searching back from the end for an element not placed after `x` finds the
place `insertPlaced` puts it. -/
theorem Placed.insertIdx_rposition (placed : Placed key l) :
    l.insertIdx ((rposition (fun a => decide (key a ≤ key x)) l).elim 0 (· + 1)) x =
      Base.insertPlaced key x l := by
  obtain ⟨front, back, rfl, low, high⟩ := placed.split (key x)
  rw [rposition_append _ front back (by simpa using low) (by simpa using high),
    insertIdx_length_append, insertPlaced_append_of_le low, insertPlaced_of_lt high]

/-- A list in key order with distinct names is determined by its elements. -/
theorem Placed.eq_of_perm {β : Type*} {name : α → β} {l' : List α} (placed : Placed key l)
    (placed' : Placed key l') (perm : l.Perm l') (distinct : (l.map name).Nodup)
    (named : ∀ a b, key a = key b → name a = name b) : l = l' := by
  refine perm.eq_of_pairwise (fun a b mem mem' le ge => ?_) placed placed'
  exact inj_on_of_nodup_map distinct mem (perm.mem_iff.mpr mem') (named a b (le_antisymm le ge))

/-- What satisfies a downward-closed condition stands at the front of a list in
key order, so counting it finds where it ends. -/
theorem Placed.findIdx_eq_countP {p : α → Bool} (placed : Placed key l)
    (down : ∀ a b, key a ≤ key b → p b = true → p a = true) :
    (l.findIdx? fun a => !p a).getD l.length = l.countP p := by
  induction l with
  | nil => rfl
  | cons a l ih =>
    obtain ⟨least, rest⟩ := pairwise_cons.mp placed
    by_cases here : p a = true
    · have tail := ih rest
      rw [List.findIdx?_cons, countP_cons_of_pos here, ← tail]
      cases l.findIdx? (fun a => !p a) <;> simp [here]
    · have none : l.countP p = 0 := countP_eq_zero.mpr fun b mem holds =>
        here (down a b (least b mem) holds)
      simp [List.findIdx?_cons, here, none]

/-! ## The newest part of a record -/

/-- `held` is what remains of a record in key order after its oldest part is
lost.  Inserting into `held` and then trimming its front again gives the end of
the new record exactly when nothing lost is placed after the new element, or
something is trimmed. -/
theorem drop_insertPlaced_suffix_iff (placed : Placed key (lost ++ held)) (k : ℕ) :
    (insertPlaced key x held).drop k <:+ insertPlaced key x (lost ++ held) ↔
      (∀ a ∈ lost, key a ≤ key x) ∨ 0 < k := by
  by_cases below : ∀ a ∈ lost, key a ≤ key x
  · refine iff_of_true ?_ (.inl below)
    rw [insertPlaced_append_of_le below]
    exact (drop_suffix _ _).trans (suffix_append _ _)
  -- The last element lost is placed after `x`, and so is everything held.
  push Not at below
  obtain ⟨a, mem, lt⟩ := below
  obtain ⟨placedLost, -, cross⟩ := pairwise_append.mp placed
  obtain ⟨init, last, rfl⟩ := eq_nil_or_concat lost |>.resolve_left (ne_nil_of_mem mem)
  have ltLast : key x < key last := by
    rcases mem_append.mp (concat_eq_append ▸ mem) with mem' | mem'
    · have le := (pairwise_append.mp (concat_eq_append ▸ placedLost)).2.2 a mem' last
      exact lt.trans_le (le (by simp))
    · rwa [← mem_singleton.mp mem']
  have ltHeld : ∀ b ∈ held, key x < key b := fun b mem' =>
    ltLast.trans_le (cross last (by simp) b mem')
  have ltBack : ∀ b ∈ last :: held, key x < key b := by
    simpa using ⟨ltLast, ltHeld⟩
  rw [insertPlaced_of_lt ltHeld, concat_eq_append, append_assoc, singleton_append,
    insertPlaced_append_of_lt ltBack]
  constructor
  · intro part
    refine .inr (Nat.pos_of_ne_zero fun zero => ?_)
    subst zero
    have tails : last :: held <:+ insertPlaced key x init ++ last :: held := suffix_append _ _
    have same := (suffix_of_suffix_length_le part tails (by simp)).eq_of_length (by simp)
    exact absurd (congrArg key (List.cons.inj same).1) ltLast.ne
  · rintro (low | pos)
    · exact absurd (low last (by simp)) (not_le.mpr ltLast)
    · obtain ⟨j, rfl⟩ := Nat.exists_eq_succ_of_ne_zero pos.ne'
      rw [drop_succ_cons]
      exact (drop_suffix _ _).trans ((suffix_cons _ _).trans (suffix_append _ _))

end E6irc.Base
